import Mathlib.Algebra.Order.BigOperators.Group.Finset
import Relocation.Proofs.Effects
import Relocation.Proofs.Files.Neighbours
import Relocation.Proofs.HostReferrers
import Relocation.Proofs.ImageUrl

/-!
The queue of keys that wait for a reconcile. A reconcile may bring keys back: its own if it asks for
another one at once, and with every host that it patches the keys of all configs that reference that
host. Where no two configs reference one host the queue becomes empty after three reconciles for
each config at most, in whatever order keys are taken; where two do, it never becomes empty
(`drains_iff_unshared`).
-/

set_option autoImplicit false

namespace Relocation

open Files (FileSystem)
open Program Store

namespace Store.Memory

def configKeys (m : Memory) : Finset ObjectKey := (m.configs.toList.map Prod.fst).toFinset

theorem mem_configKeys {m : Memory} {k : ObjectKey} :
    k ∈ m.configKeys ↔ ∃ c, m.configs.get? k = some c := by
  simp [configKeys, Table.mem_toList_iff]

/-- Whether no two stored configs reference one host. -/
def Unshared (m : Memory) : Prop :=
  ∀ k k' c c' host, m.configs.get? k = some c → m.configs.get? k' = some c' →
    c.hostKey? = some host → c'.hostKey? = some host → k = k'

/-- Whether objects are stored under their own keys, and nobody has deleted a config. -/
structure Active (m : Memory) : Prop where
  keyed : m.Keyed
  alive : ∀ k c, m.configs.get? k = some c → c.metadata.isDeleting = false
  hosts : ∀ k h, m.hosts.get? k = some h → h.key = k

def unguarded (m : Memory) (k : ObjectKey) : Bool :=
  (m.configs.get? k).any fun c => !c.hasFinalizer

/-- Whether the host of a stored config is there and does not boot its image. -/
def unbooted (ctx : ReconcileContext) (m : Memory) (k : ObjectKey) : Bool :=
  (m.configs.get? k).any fun c => c.hostKey?.any fun host => (m.hosts.get? host).any fun h =>
    !(HostPatch.bootFrom h.spec (imageUrl ctx.serviceUrl k)).isEmpty

end Store.Memory

/-- A cluster with a tree of files, and the keys that wait for a reconcile. -/
structure Work where
  world : Memory × FileSystem
  waiting : Finset ObjectKey

namespace Work

/-- All configs wait for their first reconcile. -/
def start (s : Memory × FileSystem) : Work := ⟨s, s.1.configKeys⟩

/-- The keys that come back after a reconcile: its own if it asks for another one at once, and those
of the configs that reference a host that was patched. -/
def returning (k : ObjectKey) (r : Except Error Outcome) (m : Memory) (hosts : List ObjectKey) :
    Finset ObjectKey :=
  (match r with
    | .ok .requeueNow => {k}
    | _ => ∅) ∪
  (hosts.flatMap fun host => configsForHost (m.hosts.get? host) m.configs.values).toFinset

/-- The work after a reconcile of a key with some result and patches of hosts. -/
def followed (w : Work) (k : ObjectKey) (r : Except Error Outcome) (t : Memory × FileSystem)
    (hosts : List ObjectKey) : Work :=
  ⟨t, w.waiting.erase k ∪ returning k r t.1 hosts⟩

/-- The work after an undisturbed reconcile of a key. -/
def take (ctx : ReconcileContext) (w : Work) (k : ObjectKey) : Work :=
  w.followed k (reconciled ctx k w.world).1 (reconciled ctx k w.world).2
    (patchedHosts ((reconcile ctx k).history (besideFiles Memory.answer) w.world))

/-- What may have become of the work after a number of reconciles, whichever of the waiting keys
were taken. -/
inductive Steps (ctx : ReconcileContext) (w : Work) : Nat → Work → Prop
  | none : Steps ctx w 0 w
  | take {n : Nat} {v : Work} {k : ObjectKey} : Steps ctx w n v → k ∈ v.waiting →
      Steps ctx w (n + 1) (v.take ctx k)

end Work

section Carried

variable {ctx : ReconcileContext} {k l : ObjectKey} {s t : Memory × FileSystem}
  {r : Except Error Outcome} {hosts : List ObjectKey} {m m' : Memory}

private def outline (c : ClusterConfig) : ObjectKey × ClusterConfigSpec × Bool :=
  (c.key, c.spec, c.metadata.isDeleting)

/-- Two clusters with the same objects, of which some may have been patched. -/
structure Carries (m m' : Memory) : Prop where
  configs : ∀ l, (m'.configs.get? l).map outline = (m.configs.get? l).map outline
  hosts : ∀ l, (m'.hosts.get? l).map Host.key = (m.hosts.get? l).map Host.key
  secrets : m'.secrets = m.secrets

private theorem map_get?_insert {α β : Type} {table : Table ObjectKey α} {a b : α} (f : α → β)
    (hget : table.get? k = some a) (hf : f b = f a) (l : ObjectKey) :
    ((table.insert k b).get? l).map f = (table.get? l).map f := by
  by_cases hl : l = k
  · rw [hl, Table.get?_insert_self, hget, Option.map_some, Option.map_some, hf]
  · rw [Table.get?_insert_of_ne _ _ hl]

theorem Effect.carries (h : Effect ctx k s r t hosts) : Carries s.1 t.1 := by
  cases h with
  | absent => exact ⟨fun _ => rfl, fun _ => rfl, rfl⟩
  | guards stored => exact ⟨map_get?_insert outline stored rfl, fun _ => rfl, rfl⟩
  | exports => exact ⟨fun _ => rfl, fun _ => rfl, rfl⟩
  | boots _ _ _ _ host => exact ⟨fun _ => rfl, map_get?_insert Host.key host rfl, rfl⟩

theorem Carries.config (h : Carries m m') {c : ClusterConfig} (hget : m'.configs.get? l = some c) :
    ∃ c₀, m.configs.get? l = some c₀ ∧ c.key = c₀.key ∧ c.spec = c₀.spec ∧
      c.metadata.isDeleting = c₀.metadata.isDeleting := by
  have hsame := h.configs l
  rw [hget, Option.map_some, eq_comm, Option.map_eq_some_iff] at hsame
  obtain ⟨c₀, hget₀, heq⟩ := hsame
  simp only [outline, Prod.mk.injEq] at heq
  exact ⟨c₀, hget₀, heq.1.symm, heq.2.1.symm, heq.2.2.symm⟩

theorem Carries.trans {m'' : Memory} (h : Carries m m') (h' : Carries m' m'') : Carries m m'' :=
  ⟨fun l => (h'.configs l).trans (h.configs l), fun l => (h'.hosts l).trans (h.hosts l),
    h'.secrets.trans h.secrets⟩

theorem Carries.symm (h : Carries m m') : Carries m' m :=
  ⟨fun l => (h.configs l).symm, fun l => (h.hosts l).symm, h.secrets.symm⟩

theorem Carries.active (h : Carries m m') (hm : m.Active) : m'.Active where
  keyed l c hget := by
    obtain ⟨c₀, hget₀, hkey, -, -⟩ := h.config hget
    exact hkey.trans (hm.keyed l c₀ hget₀)
  alive l c hget := by
    obtain ⟨c₀, hget₀, -, -, hdeleting⟩ := h.config hget
    exact hdeleting.trans (hm.alive l c₀ hget₀)
  hosts l host hget := by
    have hsame := h.hosts l
    rw [hget, Option.map_some, eq_comm, Option.map_eq_some_iff] at hsame
    obtain ⟨host₀, hget₀, hkey⟩ := hsame
    exact hkey.symm.trans (hm.hosts l host₀ hget₀)

theorem Carries.hostKey? (h : Carries m m') {c : ClusterConfig}
    (hget : m'.configs.get? l = some c) :
    ∃ c₀, m.configs.get? l = some c₀ ∧ c.hostKey? = c₀.hostKey? := by
  obtain ⟨c₀, hget₀, -, hspec, -⟩ := h.config hget
  exact ⟨c₀, hget₀, by rw [ClusterConfig.hostKey?, hspec, ClusterConfig.hostKey?]⟩

theorem Carries.unshared (h : Carries m m') (hm : m.Unshared) : m'.Unshared := by
  intro k k' c c' host hget hget' hhost hhost'
  obtain ⟨c₀, hget₀, hsame⟩ := h.hostKey? hget
  obtain ⟨c₀', hget₀', hsame'⟩ := h.hostKey? hget'
  exact hm k k' c₀ c₀' host hget₀ hget₀' (hsame ▸ hhost) (hsame' ▸ hhost')

theorem Carries.configKeys (h : Carries m m') : m'.configKeys = m.configKeys := by
  ext l
  rw [Memory.mem_configKeys, Memory.mem_configKeys]
  constructor
  · rintro ⟨c, hget⟩
    obtain ⟨c₀, hget₀, -⟩ := h.config hget
    exact ⟨c₀, hget₀⟩
  · rintro ⟨c, hget⟩
    obtain ⟨c₀, hget₀, -⟩ := h.symm.config hget
    exact ⟨c₀, hget₀⟩

end Carried

section Returning

variable {k l : ObjectKey} {m : Memory} {r : Except Error Outcome} {hosts : List ObjectKey}

theorem mem_configsForHost (hm : m.Active) {host : ObjectKey} :
    l ∈ configsForHost (m.hosts.get? host) m.configs.values ↔
      (∃ h, m.hosts.get? host = some h) ∧
        ∃ c, m.configs.get? l = some c ∧ c.hostKey? = some host := by
  cases hget : m.hosts.get? host with
  | none => simp [configsForHost]
  | some h =>
    have hvalues (c : ClusterConfig) : c ∈ m.configs.values ↔ ∃ k, m.configs.get? k = some c := by
      simp [Table.values, ← Table.mem_toList_iff, Table.toList]
    simp only [configsForHost, hm.hosts host h hget, List.mem_map, List.mem_filter, hvalues,
      references_iff, Option.some.injEq, exists_eq', true_and]
    constructor
    · rintro ⟨c, ⟨⟨k, hc⟩, hhost⟩, rfl⟩
      exact ⟨c, by rwa [hm.keyed k c hc], hhost⟩
    · rintro ⟨c, hc, hhost⟩
      exact ⟨c, ⟨⟨l, hc⟩, hhost⟩, hm.keyed l c hc⟩

theorem Work.mem_returning (hm : m.Active) : l ∈ Work.returning k r m hosts ↔
    (r = .ok .requeueNow ∧ l = k) ∨ ∃ host ∈ hosts, (∃ h, m.hosts.get? host = some h) ∧
      ∃ c, m.configs.get? l = some c ∧ c.hostKey? = some host := by
  have hevents : l ∈ (hosts.flatMap fun host =>
      configsForHost (m.hosts.get? host) m.configs.values).toFinset ↔
        ∃ host ∈ hosts, (∃ h, m.hosts.get? host = some h) ∧
          ∃ c, m.configs.get? l = some c ∧ c.hostKey? = some host := by
    rw [List.mem_toFinset, List.mem_flatMap]
    simp only [mem_configsForHost hm]
  unfold Work.returning
  rw [Finset.mem_union, hevents]
  refine or_congr_left ?_
  rcases r with e | (_ | _ | _) <;> simp

end Returning

section Draining

variable {ctx : ReconcileContext} {k l : ObjectKey} {s t : Memory × FileSystem} {v w : Work}
  {r : Except Error Outcome} {hosts : List ObjectKey} {n : Nat}

theorem Store.Memory.unguarded_iff {m : Memory} :
    m.unguarded k = true ↔ ∃ c, m.configs.get? k = some c ∧ c.hasFinalizer = false := by
  simp [Memory.unguarded, Option.any_eq_true]

theorem Store.Memory.unbooted_iff {m : Memory} : m.unbooted ctx k = true ↔
    ∃ c host h, m.configs.get? k = some c ∧ c.hostKey? = some host ∧ m.hosts.get? host = some h ∧
      (HostPatch.bootFrom h.spec (imageUrl ctx.serviceUrl k)).isEmpty = false := by
  simp [Memory.unbooted, Option.any_eq_true]

private theorem hasFinalizer_appended (c : ClusterConfig) (version : Option String) :
    (c.withFinalizers (some (c.metadata.finalizerList ++ [ourFinalizer])) version).hasFinalizer =
      true := by
  simp [ClusterConfig.hasFinalizer, ClusterConfig.withFinalizers, ObjectMeta.finalizerList]

theorem Effect.unguarded (h : Effect ctx k s r t hosts) :
    (∀ l, t.1.unguarded l = true → s.1.unguarded l = true) ∧
      (r = .ok .requeueNow → s.1.unguarded k = true ∧ t.1.unguarded k ≠ true) := by
  cases h with
  | absent => exact ⟨fun _ => id, nofun⟩
  | @guards c stored unguarded =>
    refine ⟨fun l hl => ?_, fun _ => ⟨Memory.unguarded_iff.2 ⟨c, stored, unguarded⟩, fun hk => ?_⟩⟩
    · obtain ⟨c', hget, hnot⟩ := Memory.unguarded_iff.1 hl
      by_cases heq : l = k
      · exact heq ▸ Memory.unguarded_iff.2 ⟨c, stored, unguarded⟩
      · rw [Table.get?_insert_of_ne _ _ heq] at hget
        exact Memory.unguarded_iff.2 ⟨c', hget, hnot⟩
    · obtain ⟨c', hget, hnot⟩ := Memory.unguarded_iff.1 hk
      rw [Table.get?_insert_self, Option.some_inj] at hget
      rw [← hget, hasFinalizer_appended] at hnot
      cases hnot
  | exports _ _ _ done => exact ⟨fun _ => id, fun h => absurd h done⟩
  | boots => exact ⟨fun _ => id, nofun⟩

theorem Effect.unbooted_beside (h : Effect ctx k s r t hosts) {c : ClusterConfig}
    (hget : t.1.configs.get? l = some c) (hbeside : ∀ host ∈ hosts, c.hostKey? ≠ some host) :
    t.1.unbooted ctx l = true → s.1.unbooted ctx l = true := by
  intro hunbooted
  obtain ⟨c', host, h', hget', hhost, hstored, hneeded⟩ := Memory.unbooted_iff.1 hunbooted
  obtain rfl := Option.some.inj (hget.symm.trans hget')
  obtain ⟨c₀, hget₀, hsame⟩ := h.carries.hostKey? hget
  refine Memory.unbooted_iff.2 ⟨c₀, host, h', hget₀, hsame ▸ hhost, ?_, hneeded⟩
  cases h with
  | @boots _ ref _ _ _ _ _ _ _ _ =>
    have hne : host ≠ ref.key := fun heq => hbeside _ (List.mem_singleton_self _) (heq ▸ hhost)
    rwa [Table.get?_insert_of_ne _ _ hne] at hstored
  | _ => exact hstored

theorem Effect.unbooted_self (h : Effect ctx k s r t hosts) (hpatched : hosts ≠ []) :
    s.1.unbooted ctx k = true ∧ t.1.unbooted ctx k ≠ true ∧
      ∃ c host, s.1.configs.get? k = some c ∧ c.hostKey? = some host ∧ hosts = [host] := by
  cases h with
  | @boots c ref h _ stored _ _ reference host needed =>
    have hhost : c.hostKey? = some ref.key := by rw [ClusterConfig.hostKey?, reference]; rfl
    refine ⟨Memory.unbooted_iff.2 ⟨c, ref.key, h, stored, hhost, host, needed⟩, fun hk => ?_,
      c, ref.key, stored, hhost, rfl⟩
    obtain ⟨c', host', h', hget, hhost', hstored, hneeded⟩ := Memory.unbooted_iff.1 hk
    obtain rfl := Option.some.inj (stored.symm.trans hget)
    obtain rfl := Option.some.inj (hhost.symm.trans hhost')
    rw [Table.get?_insert_self, Option.some_inj] at hstored
    rw [← hstored, isEmpty_bootFrom_booting] at hneeded
    cases hneeded
  | _ => exact absurd rfl hpatched

/-- How much may still be done for a key: the reconcile that it waits for, one that guards its
config, and one that points the host at the image. -/
def Work.debt (ctx : ReconcileContext) (w : Work) (k : ObjectKey) : Nat :=
  (decide (k ∈ w.waiting)).toNat + (w.world.1.unguarded k).toNat + (w.world.1.unbooted ctx k).toNat

private theorem toNat_le {a b : Bool} (h : a = true → b = true) : a.toNat ≤ b.toNat := by
  cases a <;> cases b <;> simp_all

private theorem toNat_lt {a b : Bool} (ha : a ≠ true) (hb : b = true) : a.toNat < b.toNat := by
  cases a <;> cases b <;> simp_all

theorem Effect.returning (h : Effect ctx k s r t hosts) (hactive : s.1.Active)
    (hunshared : s.1.Unshared) (hl : l ∈ Work.returning k r t.1 hosts) :
    l = k ∧ (r = .ok .requeueNow ∨ hosts ≠ []) := by
  rcases (Work.mem_returning (h.carries.active hactive)).1 hl with
    ⟨hrequeue, rfl⟩ | ⟨host, hmem, -, c, hget, hhost⟩
  · exact ⟨rfl, .inl hrequeue⟩
  · have hpatched : hosts ≠ [] := List.ne_nil_of_mem hmem
    obtain ⟨-, -, c₁, host₁, hget₁, hhost₁, rfl⟩ := h.unbooted_self hpatched
    obtain rfl := List.mem_singleton.1 hmem
    obtain ⟨c₀, hget₀, hsame⟩ := h.carries.hostKey? hget
    exact ⟨hunshared l k c₀ c₁ host hget₀ hget₁ (hsame ▸ hhost) hhost₁, .inr hpatched⟩

theorem Effect.unbooted (h : Effect ctx k s r t hosts) (hunshared : s.1.Unshared)
    (hl : t.1.unbooted ctx l = true) : s.1.unbooted ctx l = true := by
  obtain ⟨c, host, -, hget, hhost, -⟩ := Memory.unbooted_iff.1 hl
  refine h.unbooted_beside hget (fun host' hmem hhost' => ?_) hl
  obtain ⟨-, hbooted, c₁, host₁, hget₁, hhost₁, rfl⟩ := h.unbooted_self (List.ne_nil_of_mem hmem)
  obtain rfl := List.mem_singleton.1 hmem
  obtain ⟨c₀, hget₀, hsame⟩ := h.carries.hostKey? hget
  obtain rfl := hunshared l k c₀ c₁ host' hget₀ hget₁ (hsame ▸ hhost') hhost₁
  exact hbooted hl

/-- Where no two configs reference one host, a reconcile leaves less to be done for its key, and no
more for any other. -/
theorem Effect.debt (h : Effect ctx k w.world r t hosts) (hactive : w.world.1.Active)
    (hunshared : w.world.1.Unshared) (hk : k ∈ w.waiting) :
    (w.followed k r t hosts).debt ctx k < w.debt ctx k ∧
      ∀ l, (w.followed k r t hosts).debt ctx l ≤ w.debt ctx l := by
  have hguarding (l : ObjectKey) := toNat_le (h.unguarded.1 l)
  have hbooting (l : ObjectKey) := toNat_le fun hl : t.1.unbooted ctx l = true =>
    h.unbooted hunshared hl
  have hwaiting (l : ObjectKey) : (decide (l ∈ (w.followed k r t hosts).waiting)).toNat ≤
      (decide (l ∈ w.waiting)).toNat := by
    refine toNat_le fun hl => decide_eq_true ?_
    rcases Finset.mem_union.1 (of_decide_eq_true hl) with hl | hl
    · exact (Finset.mem_erase.1 hl).2
    · exact (h.returning hactive hunshared hl).1 ▸ hk
  refine ⟨?_, fun l => Nat.add_le_add (Nat.add_le_add (hwaiting l) (hguarding l)) (hbooting l)⟩
  by_cases hreturns : k ∈ Work.returning k r t.1 hosts
  · rcases (h.returning hactive hunshared hreturns).2 with hrequeue | hpatched
    · obtain ⟨hbefore, hafter⟩ := h.unguarded.2 hrequeue
      exact Nat.add_lt_add_of_lt_of_le
        (Nat.add_lt_add_of_le_of_lt (hwaiting k) (toNat_lt hafter hbefore)) (hbooting k)
    · obtain ⟨hbefore, hafter, -⟩ := h.unbooted_self hpatched
      exact Nat.add_lt_add_of_le_of_lt (Nat.add_le_add (hwaiting k) (hguarding k))
        (toNat_lt hafter hbefore)
  · have hgone : k ∉ (w.followed k r t hosts).waiting := by
      simp [Work.followed, hreturns]
    exact Nat.add_lt_add_of_lt_of_le (Nat.add_lt_add_of_lt_of_le
      (toNat_lt (by simpa using hgone) (decide_eq_true hk)) (hguarding k)) (hbooting k)

theorem Work.effect_take (ctx : ReconcileContext) (h : w.world.1.Active) (k : ObjectKey) :
    Effect ctx k w.world (reconciled ctx k w.world).1 (reconciled ctx k w.world).2
      (patchedHosts ((reconcile ctx k).history (besideFiles Memory.answer) w.world)) :=
  effect_reconcile ctx h.keyed (h.alive k)

theorem Work.Steps.carries (h : Steps ctx v n w) (hv : v.world.1.Active) :
    Carries v.world.1 w.world.1 := by
  induction h with
  | none => exact ⟨fun _ => rfl, fun _ => rfl, rfl⟩
  | @take n w k _ _ ih => exact ih.trans (effect_take ctx (ih.active hv) k).carries

private theorem Work.Steps.debt (h : Steps ctx (start s) n w) (hactive : s.1.Active)
    (hunshared : s.1.Unshared) : w.waiting ⊆ s.1.configKeys ∧
      n + ∑ k ∈ s.1.configKeys, w.debt ctx k ≤ ∑ k ∈ s.1.configKeys, (start s).debt ctx k := by
  induction h with
  | none => exact ⟨Finset.Subset.refl _, (Nat.zero_add _).le⟩
  | @take n w k hsteps hk ih =>
    obtain ⟨hwaiting, hdebt⟩ := ih
    have hcarries := hsteps.carries hactive
    have heffect := effect_take ctx (hcarries.active hactive) k
    obtain ⟨hless, hrest⟩ := heffect.debt (hcarries.active hactive)
      (hcarries.unshared hunshared) hk
    have hsum := Finset.sum_lt_sum (fun l _ => hrest l) ⟨k, hwaiting hk, hless⟩
    refine ⟨fun l hl => ?_, ?_⟩
    · rcases Finset.mem_union.1 hl with hl | hl
      · exact hwaiting (Finset.mem_erase.1 hl).2
      · exact hwaiting ((heffect.returning (hcarries.active hactive)
          (hcarries.unshared hunshared) hl).1 ▸ hk)
    · change n + 1 + ∑ l ∈ s.1.configKeys, (w.followed k _ _ _).debt ctx l ≤ _
      omega

theorem Work.Steps.le_of_unshared (h : Steps ctx (start s) n w) (hactive : s.1.Active)
    (hunshared : s.1.Unshared) : n ≤ 3 * s.1.configKeys.card := by
  have hdebt := (h.debt hactive hunshared).2
  have hone (k : ObjectKey) : (start s).debt ctx k ≤ 3 := by
    have hbit (b : Bool) : b.toNat ≤ 1 := Bool.toNat_le b
    exact Nat.add_le_add (Nat.add_le_add (hbit _) (hbit _)) (hbit _)
  have hall : ∑ k ∈ s.1.configKeys, (start s).debt ctx k ≤ s.1.configKeys.card * 3 :=
    (Finset.sum_le_sum fun k _ => hone k).trans_eq (Finset.sum_const_nat fun _ _ => rfl)
  omega

end Draining

section Running

variable {ctx : ReconcileContext} {k l : ObjectKey} {s t : Memory × FileSystem} {v w : Work}
  {n : Nat}

/-- Whether all that the configs need is there: what they reference, sites for their exports, and
nobody who holds a lock. -/
structure Provided (ctx : ReconcileContext) (s : Memory × FileSystem) : Prop where
  supplied : ∀ k c, s.1.configs.get? k = some c → Supplied ctx k c s
  hosts : ∀ k h, s.1.hosts.get? k = some h → h.key = k
  unlocked : s.2.held = []

theorem Provided.active (h : Provided ctx s) : s.1.Active where
  keyed k c hget := (h.supplied k c hget).keyed
  alive k c hget := (h.supplied k c hget).alive
  hosts := h.hosts

theorem Effect.of_absent {r : Except Error Outcome} {hosts : List ObjectKey}
    (h : Effect ctx k s r t hosts) (hnone : s.1.configs.get? k = none) : t = s := by
  cases h with
  | absent => rfl
  | guards stored => exact nomatch hnone.symm.trans stored
  | exports stored => exact nomatch hnone.symm.trans stored
  | boots stored => exact nomatch hnone.symm.trans stored

theorem Effect.held {r : Except Error Outcome} {hosts : List ObjectKey}
    (h : Effect ctx k s r t hosts) : t.2.held = s.2.held := by
  cases h with
  | exports _ _ held => exact held
  | boots _ _ held => exact held
  | _ => rfl

private theorem Provided.ends (h : Provided ctx s) {c : ClusterConfig}
    (hget : s.1.configs.get? k = some c) :
    Partway ctx k c s (reconciled ctx k s).2 ∧
      (Guarded k s → Arrived ctx k c s (reconciled ctx k s).2) ∧
      (¬Guarded k s → (reconciled ctx k s).1 = .ok .requeueNow) := by
  have hsupplied := h.supplied k c hget
  have hfree : Unlocked ctx.dataDir k s.2 := by
    constructor <;> simp [h.unlocked]
  obtain ⟨hpartway, hguarded, hunguarded⟩ :=
    reconciled_ends hsupplied (Ready.partway ⟨hsupplied, hget⟩) hfree
  exact ⟨hpartway, fun hg => (hguarded hg).2, fun hg => (hunguarded hg).1⟩

theorem Provided.after (h : Provided ctx s) (k : ObjectKey) :
    Provided ctx (reconciled ctx k s).2 := by
  have heffect := effect_reconcile ctx h.active.keyed (h.active.alive k)
  have hcarries := heffect.carries
  cases hstored : s.1.configs.get? k with
  | none => rwa [heffect.of_absent hstored]
  | some c =>
    have hfiles := (h.ends hstored).1.files
    have hpaths := (h.supplied k c hstored).site.toExportPaths
    refine ⟨fun l c' hget => ?_, (hcarries.active h.active).hosts, heffect.held.trans h.unlocked⟩
    obtain ⟨c₀, hget₀, hkey, hspec, hdeleting⟩ := hcarries.config hget
    obtain ⟨hkeyed, halive, hsecrets, hhost, hsite⟩ := h.supplied l c₀ hget₀
    refine ⟨hkey.trans hkeyed, hdeleting.trans halive, fun artifact ref href => ?_,
      fun ref href => ?_, hsite.beside hpaths hfiles⟩
    · rw [hcarries.secrets]
      exact hsecrets artifact ref (hspec ▸ href)
    · have hsame := congrArg Option.isSome (hcarries.hosts ref.key)
      rw [Option.isSome_map, Option.isSome_map] at hsame
      exact hsame.trans (hhost ref (hspec ▸ href))

theorem Provided.host (h : Provided ctx s) {c : ClusterConfig} {host : ObjectKey}
    (hget : s.1.configs.get? k = some c) (hhost : c.hostKey? = some host) :
    ∃ h, s.1.hosts.get? host = some h := by
  obtain ⟨ref, href, rfl⟩ := Option.map_eq_some_iff.1 hhost
  exact Option.isSome_iff_exists.1 ((h.supplied k c hget).host ref href)

/-- Whether every config that does not wait is guarded and has a host that boots its image. -/
def Work.AtRest (ctx : ReconcileContext) (w : Work) : Prop :=
  ∀ k c, w.world.1.configs.get? k = some c → k ∉ w.waiting →
    w.world.1.unguarded k ≠ true ∧ w.world.1.unbooted ctx k ≠ true

private theorem Provided.rests (h : Provided ctx s) {c : ClusterConfig}
    (hget : s.1.configs.get? k = some c) (hdone : (reconciled ctx k s).1 ≠ .ok .requeueNow) :
    (reconciled ctx k s).2.1.unguarded k ≠ true ∧
      (reconciled ctx k s).2.1.unbooted ctx k ≠ true := by
  have heffect := effect_reconcile ctx h.active.keyed (h.active.alive k)
  obtain ⟨-, hguarded, hunguarded⟩ := h.ends hget
  have hg : Guarded k s := Classical.byContradiction fun hnot => hdone (hunguarded hnot)
  refine ⟨fun hk => ?_, fun hk => ?_⟩
  · obtain ⟨c₁, hget₁, hnot⟩ := Memory.unguarded_iff.1 (heffect.unguarded.1 k hk)
    obtain ⟨c₂, hget₂, hfinalizer⟩ := hg
    obtain rfl := Option.some.inj (hget₁.symm.trans hget₂)
    rw [hfinalizer] at hnot
    cases hnot
  · obtain ⟨c', host, h', hget', hhost, hstored, hneeded⟩ := Memory.unbooted_iff.1 hk
    obtain ⟨c₀, hget₀, hsame⟩ := heffect.carries.hostKey? hget'
    obtain rfl := Option.some.inj (hget.symm.trans hget₀)
    obtain ⟨ref, href, rfl⟩ := Option.map_eq_some_iff.1 (hsame ▸ hhost : c.hostKey? = some host)
    obtain ⟨h₀, h₁, -, hstored₁, hspec⟩ := (hguarded hg).host ref href
    obtain rfl := Option.some.inj (hstored.symm.trans hstored₁)
    rw [hspec, isEmpty_bootFrom_booting] at hneeded
    cases hneeded

theorem Work.AtRest.take (hrest : w.AtRest ctx) (h : Provided ctx w.world) (hk : k ∈ w.waiting) :
    (w.take ctx k).AtRest ctx := by
  have heffect := effect_take ctx h.active k
  have hafter := h.after k
  have hreturning {l : ObjectKey} (hl : l ∉ (w.take ctx k).waiting) :
      (l = k ∨ l ∉ w.waiting) ∧ l ∉ returning k (reconciled ctx k w.world).1
        (reconciled ctx k w.world).2.1
        (patchedHosts ((reconcile ctx k).history (besideFiles Memory.answer) w.world)) := by
    simpa [Work.take, Work.followed, or_iff_not_imp_left] using hl
  intro l c hget hl
  obtain ⟨hwaited, hreturns⟩ := hreturning hl
  rw [mem_returning hafter.active, not_or] at hreturns
  obtain ⟨hown, hevents⟩ := hreturns
  obtain ⟨c₀, hget₀, hsame⟩ := heffect.carries.hostKey? hget
  by_cases heq : l = k
  · subst heq
    exact h.rests hget₀ fun hrequeue => hown ⟨hrequeue, rfl⟩
  · obtain ⟨hguarded, hbooted⟩ := hrest l c₀ hget₀ (hwaited.resolve_left heq)
    refine ⟨fun hl => hguarded (heffect.unguarded.1 l hl), fun hl => hbooted ?_⟩
    -- A patch of its host would have brought the key back.
    refine heffect.unbooted_beside hget (fun host hmem hhost => hevents ?_) hl
    exact ⟨host, hmem, hafter.host hget hhost, c, hget, hhost⟩

private theorem Work.Steps.rests (h : Steps ctx (start s) n w) (hprovided : Provided ctx s) :
    Provided ctx w.world ∧ w.AtRest ctx := by
  induction h with
  | none =>
    exact ⟨hprovided, fun k c hget hk => absurd (Memory.mem_configKeys.2 ⟨c, hget⟩) hk⟩
  | @take n w k _ hk ih => exact ⟨ih.1.after k, ih.2.take ih.1 hk⟩

theorem Work.Steps.nonempty_of_shared (h : Steps ctx (start s) n w) (hprovided : Provided ctx s)
    (hshared : ¬s.1.Unshared) : w.waiting.Nonempty := by
  obtain ⟨hprovided', hrest⟩ := h.rests hprovided
  refine Finset.nonempty_iff_ne_empty.2 fun hempty => hshared ?_
  refine (h.carries hprovided.active).symm.unshared ?_
  intro k k' c c' host hget hget' hhost hhost'
  obtain ⟨stored, hstored⟩ := hprovided'.host hget hhost
  have hboots {l : ObjectKey} {c : ClusterConfig} (hget : w.world.1.configs.get? l = some c)
      (hhost : c.hostKey? = some host) :
      (HostPatch.bootFrom stored.spec (imageUrl ctx.serviceUrl l)).isEmpty = true := by
    have hbooted := (hrest l c hget (by simp [hempty])).2
    rw [Ne, Memory.unbooted_iff] at hbooted
    refine Bool.not_eq_false _ ▸ fun hneeded => hbooted ?_
    exact ⟨c, host, stored, hget, hhost, hstored, hneeded⟩
  exact imageUrl_inj.1 (bootFrom_isEmpty_inj (hboots hget hhost) (hboots hget' hhost'))

/-- The queue of keys that wait for a reconcile, where all that the configs need is there. If no two
configs reference one host, it becomes empty after three reconciles for each config at most, in
whatever order keys are taken; if two do, it never becomes empty. -/
theorem drains_iff_unshared (h : Provided ctx s) :
    (s.1.Unshared → ∀ n w, Work.Steps ctx (.start s) n w → n ≤ 3 * s.1.configKeys.card) ∧
      (¬s.1.Unshared → ∀ n w, Work.Steps ctx (.start s) n w → w.waiting.Nonempty) :=
  ⟨fun hunshared _ _ hsteps => hsteps.le_of_unshared h.active hunshared,
    fun hshared _ _ hsteps => hsteps.nonempty_of_shared h hshared⟩

end Running

section Pair

private def keyOf (first : Bool) : ObjectKey := ⟨"edge", if first then "east" else "west"⟩

private def hostOf (name : String) : Host := ⟨{ name := some name, space := some "edge" }, {}⟩

private def configOf (first : Bool) (host : String) : ClusterConfig where
  metadata := { name := some (keyOf first).name, space := some "edge" }
  spec := { relocation := { domain := "example.com" }, bareMetalHostRef := some ⟨host, "edge"⟩ }

private def pairState (host : String) : Memory × FileSystem where
  fst := {
    configs := (Table.empty.insert (keyOf true) (configOf true "metal")).insert (keyOf false)
      (configOf false host)
    hosts := (Table.empty.insert ⟨"edge", "metal"⟩ (hostOf "metal")).insert ⟨"edge", "steel"⟩
      (hostOf "steel") }
  snd := { entries := Table.empty.insert ["data"] (.directory 0o755) }

private theorem pair_stored {host : String} {k : ObjectKey} {c : ClusterConfig}
    (h : (pairState host).1.configs.get? k = some c) :
    k = keyOf true ∧ c = configOf true "metal" ∨ k = keyOf false ∧ c = configOf false host := by
  simp only [pairState, Table.get?_insert, Table.get?_empty] at h
  split at h
  · rename_i heq
    exact .inr ⟨Std.LawfulEqOrd.eq_of_compare heq, (Option.some.inj h).symm⟩
  · split at h
    · rename_i heq
      exact .inl ⟨Std.LawfulEqOrd.eq_of_compare heq, (Option.some.inj h).symm⟩
    · cases h

private theorem pair_site (host : String) (first : Bool) :
    ExportSite sampleContext.dataDir (keyOf first) (pairState host).2 := by
  have hk : (keyOf first).Placeable := by
    cases first <;> decide
  have vacant {l : Files.Location} (hl : l ≠ ["data"]) :
      (pairState host).2.entries.get? l = none := by
    rw [pairState, Table.get?_insert_of_ne _ _ hl]
    rfl
  refine ⟨⟨hk, ?_, ?_, ?_, exportStations_apart hk (by decide)⟩, fun l _ => ?_, ?_⟩
  · cases first <;> decide
  · cases first <;> rfl
  · intro artifact
    cases first <;> cases artifact <;> rfl
  · by_cases hl : l = ["data"]
    · rw [hl]
      exact .inr ⟨0o755, rfl⟩
    · exact .inl (vacant hl)
  · rintro l (rfl | ⟨artifact, rfl⟩)
    · exact .inl (vacant (by cases first <;> decide))
    · exact .inl (vacant (by cases first <;> cases artifact <;> decide))

private theorem pair_provided (host : String) (hhost : host = "metal" ∨ host = "steel") :
    Provided sampleContext (pairState host) where
  supplied k c hget := by
    have hstored (name : String) (hname : name = "metal" ∨ name = "steel") :
        ((pairState host).1.hosts.get? ⟨"edge", name⟩).isSome := by
      rcases hname with rfl | rfl <;> rfl
    rcases pair_stored hget with ⟨rfl, rfl⟩ | ⟨rfl, rfl⟩
    · refine ⟨rfl, rfl, fun artifact r hr => ?_, fun r hr => ?_, pair_site host true⟩
      · cases artifact <;> cases hr
      · cases hr
        exact hstored "metal" (.inl rfl)
    · refine ⟨rfl, rfl, fun artifact r hr => ?_, fun r hr => ?_, pair_site host false⟩
      · cases artifact <;> cases hr
      · cases hr
        exact hstored host hhost
  hosts k h hget := by
    simp only [pairState, Table.get?_insert, Table.get?_empty] at hget
    split at hget
    · rename_i heq
      rw [← Option.some.inj hget, Std.LawfulEqOrd.eq_of_compare heq]
      rfl
    · split at hget
      · rename_i heq
        rw [← Option.some.inj hget, Std.LawfulEqOrd.eq_of_compare heq]
        rfl
      · cases hget
  unlocked := rfl

/-- Two configs with a host each. -/
theorem drains_two_hosts : Provided sampleContext (pairState "steel") ∧
    (pairState "steel").1.Unshared ∧
    ∀ n w, Work.Steps sampleContext (.start (pairState "steel")) n w → n ≤ 6 := by
  have hunshared : (pairState "steel").1.Unshared := by
    intro k k' c c' host hget hget' hhost hhost'
    rcases pair_stored hget with ⟨rfl, rfl⟩ | ⟨rfl, rfl⟩ <;>
      rcases pair_stored hget' with ⟨rfl, rfl⟩ | ⟨rfl, rfl⟩ <;>
      first | rfl | exact absurd (hhost.trans hhost'.symm) (by decide)
  have hprovided := pair_provided "steel" (.inr rfl)
  exact ⟨hprovided, hunshared, (drains_iff_unshared hprovided).1 hunshared⟩

/-- Two configs that reference one host keep each other waiting. -/
theorem shared_host_keeps_waiting : Provided sampleContext (pairState "metal") ∧
    ∀ n w, Work.Steps sampleContext (.start (pairState "metal")) n w → w.waiting.Nonempty := by
  have hprovided := pair_provided "metal" (.inl rfl)
  refine ⟨hprovided, fun n w hsteps => hsteps.nonempty_of_shared hprovided fun hunshared => ?_⟩
  exact absurd (hunshared (keyOf true) (keyOf false) _ _ ⟨"edge", "metal"⟩ rfl rfl rfl rfl)
    (by decide)

end Pair

end Relocation
