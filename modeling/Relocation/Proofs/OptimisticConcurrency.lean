import Relocation.Proofs.Versions

/-!
Versions over the whole life of a cluster kept in memory. One count serves configs, hosts and
secrets: a write touches one place, and what it puts there bears the next version (`Write.effect`).
So the versions of stored objects are pairwise different, a patch for the version that was read is
applied exactly when nobody has written to that place since, a refused operation changes nothing,
and an applied patch changes one object (`optimistic_concurrency`).
-/

set_option autoImplicit false

namespace Relocation.Store

/-- Where a cluster keeps an object: in the table of its kind, under its key. -/
inductive Slot
  | config (key : ObjectKey)
  | host (key : ObjectKey)
  | secret (key : ObjectKey)
  deriving DecidableEq

/-- An object of any kind. -/
inductive Item
  | config (c : ClusterConfig)
  | host (h : Host)
  | secret (s : Secret)

def Item.version? : Item → Option String
  | .config c => c.metadata.resourceVersion
  | .host h => h.metadata.resourceVersion
  | .secret s => s.metadata.resourceVersion

def Memory.item? (m : Memory) : Slot → Option Item
  | .config key => (m.configs.get? key).map .config
  | .host key => (m.hosts.get? key).map .host
  | .secret key => (m.secrets.get? key).map .secret

/-- What an effective write does: it touches one place, and the object there goes, or gives way to
one that bears the version given out with the write. -/
structure Replaces (a : Slot) (m m' : Memory) : Prop where
  elsewhere : ∀ b, b ≠ a → m'.item? b = m.item? b
  le : m.version ≤ m'.version
  here : m'.item? a = none ∨
    ∃ x, m'.item? a = some x ∧ m'.version = m.version + 1 ∧ x.version? = some m'.version.repr

/-- Writes one after the other, with the cluster after each of them. -/
inductive Succession : Memory → List Memory → Memory → Prop
  | stay (m : Memory) : Succession m [] m
  | write {m m' m'' : Memory} {later : List Memory} : Write m m' → Succession m' later m'' →
      Succession m (m' :: later) m''

/-- Objects of one kind: the table that a cluster keeps them in, and what they are among objects of
any kind. -/
structure Kind (α : Type) where
  table : Memory → Table ObjectKey α
  metadata : α → ObjectMeta
  slot : ObjectKey → Slot
  item : α → Item
  item?_slot : ∀ m key, m.item? (slot key) = ((table m).get? key).map item
  version?_item : ∀ x, (item x).version? = (metadata x).resourceVersion
  item_inj : ∀ {x y}, item x = item y → x = y

namespace Kind

def config : Kind ClusterConfig where
  table := Memory.configs
  metadata := ClusterConfig.metadata
  slot := .config
  item := .config
  item?_slot _ _ := rfl
  version?_item _ := rfl
  item_inj := Item.config.inj

def host : Kind Host where
  table := Memory.hosts
  metadata := Host.metadata
  slot := .host
  item := .host
  item?_slot _ _ := rfl
  version?_item _ := rfl
  item_inj := Item.host.inj

def secret : Kind Secret where
  table := Memory.secrets
  metadata := Secret.metadata
  slot := .secret
  item := .secret
  item?_slot _ _ := rfl
  version?_item _ := rfl
  item_inj := Item.secret.inj

end Kind

section Replaces

variable {α : Type} {m m' m'' : Memory} {a : Slot} {key : ObjectKey}

namespace Kind

variable (kind : Kind α) {x : α}

theorem item?_eq_some_iff : m.item? (kind.slot key) = some (kind.item x) ↔
    (kind.table m).get? key = some x := by
  rw [kind.item?_slot, Option.map_eq_some_iff]
  constructor
  · rintro ⟨y, hget, heq⟩
    rw [hget, kind.item_inj heq]
  · intro hget
    exact ⟨x, hget, rfl⟩

private theorem item?_of_ne {b : Slot}
    (hbeside : ∀ b, (∀ k, b ≠ kind.slot k) → m'.item? b = m.item? b)
    (htable : ∀ k, k ≠ key → (kind.table m').get? k = (kind.table m).get? k)
    (hb : b ≠ kind.slot key) : m'.item? b = m.item? b := by
  by_cases hkind : ∃ k, b = kind.slot k
  · obtain ⟨k, rfl⟩ := hkind
    have hk : k ≠ key := fun heq => hb (congrArg kind.slot heq)
    rw [kind.item?_slot, kind.item?_slot, htable k hk]
  · exact hbeside b fun k heq => hkind ⟨k, heq⟩

theorem replaces_insert (htable : kind.table m' = (kind.table m).insert key x)
    (hbeside : ∀ b, (∀ k, b ≠ kind.slot k) → m'.item? b = m.item? b)
    (hversion : m'.version = m.version + 1)
    (hx : (kind.metadata x).resourceVersion = some (m.version + 1).repr) :
    Replaces (kind.slot key) m m' where
  elsewhere b hb := by
    refine kind.item?_of_ne hbeside (fun k hk => ?_) hb
    rw [htable, Table.get?_insert_of_ne _ _ hk]
  le := by omega
  here := by
    refine .inr ⟨kind.item x, ?_, hversion, ?_⟩
    · rw [kind.item?_eq_some_iff, htable, Table.get?_insert_self]
    · rw [kind.version?_item, hx, hversion]

theorem replaces_erase (htable : kind.table m' = (kind.table m).erase key)
    (hbeside : ∀ b, (∀ k, b ≠ kind.slot k) → m'.item? b = m.item? b)
    (hversion : m.version ≤ m'.version) : Replaces (kind.slot key) m m' where
  elsewhere b hb := by
    refine kind.item?_of_ne hbeside (fun k hk => ?_) hb
    rw [htable, Table.get?_erase_of_ne _ hk]
  le := hversion
  here := .inl (by rw [kind.item?_slot, htable, Table.get?_erase_self, Option.map_none])

end Kind

private theorem beside_configs (hhosts : m'.hosts = m.hosts) (hsecrets : m'.secrets = m.secrets)
    (b : Slot) (hb : ∀ k, b ≠ Kind.config.slot k) : m'.item? b = m.item? b := by
  cases b with
  | config k => exact absurd rfl (hb k)
  | host k => rw [Memory.item?, Memory.item?, hhosts]
  | secret k => rw [Memory.item?, Memory.item?, hsecrets]

private theorem beside_hosts (hconfigs : m'.configs = m.configs)
    (hsecrets : m'.secrets = m.secrets) (b : Slot) (hb : ∀ k, b ≠ Kind.host.slot k) :
    m'.item? b = m.item? b := by
  cases b with
  | config k => rw [Memory.item?, Memory.item?, hconfigs]
  | host k => exact absurd rfl (hb k)
  | secret k => rw [Memory.item?, Memory.item?, hsecrets]

private theorem beside_secrets (hconfigs : m'.configs = m.configs) (hhosts : m'.hosts = m.hosts)
    (b : Slot) (hb : ∀ k, b ≠ Kind.secret.slot k) : m'.item? b = m.item? b := by
  cases b with
  | config k => rw [Memory.item?, Memory.item?, hconfigs]
  | host k => rw [Memory.item?, Memory.item?, hhosts]
  | secret k => exact absurd rfl (hb k)

theorem replaces_insertConfig (m : Memory) (c : ClusterConfig) :
    Replaces (.config c.key) m (m.insertConfig c) :=
  Kind.config.replaces_insert rfl (beside_configs rfl rfl) rfl rfl

theorem replaces_insertHost (m : Memory) (h : Host) :
    Replaces (.host h.key) m (m.insertHost h) :=
  Kind.host.replaces_insert rfl (beside_hosts rfl rfl) rfl rfl

theorem replaces_insertSecret (m : Memory) (s : Secret) :
    Replaces (.secret s.key) m (m.insertSecret s) :=
  Kind.secret.replaces_insert rfl (beside_secrets rfl rfl) rfl rfl

theorem replaces_removeHost (m : Memory) (key : ObjectKey) :
    Replaces (.host key) m (m.removeHost key) :=
  Kind.host.replaces_erase rfl (beside_hosts rfl rfl) (Nat.le_refl _)

theorem replaces_deleteConfig (m : Memory) (now : Time.Timestamp) (key : ObjectKey) :
    m.deleteConfig now key = m ∨ Replaces (.config key) m (m.deleteConfig now key) := by
  unfold Memory.deleteConfig
  split
  · exact .inl rfl
  · split
    · exact .inr (Kind.config.replaces_erase rfl (beside_configs rfl rfl) (Nat.le_refl _))
    · split
      · exact .inl rfl
      · exact .inr (Kind.config.replaces_insert rfl (beside_configs rfl rfl) rfl rfl)

theorem replaces_patchFinalizers {version : Option String} {list : List String}
    (h : m.patchFinalizers key version list = .ok m') : Replaces (.config key) m m' := by
  obtain ⟨c, -, -, rfl⟩ := revise_eq_ok_iff.1 h
  cases hreleased : list.isEmpty && c.metadata.isDeleting with
  | true => exact Kind.config.replaces_erase rfl (beside_configs rfl rfl) (Nat.le_succ _)
  | false => exact Kind.config.replaces_insert rfl (beside_configs rfl rfl) rfl rfl

theorem replaces_patchHost {version : Option String} {patch : HostPatch}
    (h : m.patchHost key version patch = .ok m') : Replaces (.host key) m m' := by
  obtain ⟨host, -, -, rfl⟩ := revise_eq_ok_iff.1 h
  exact Kind.host.replaces_insert rfl (beside_hosts rfl rfl) rfl rfl

theorem replaces_answer (m : Memory) (call : StoreCall) :
    (m.answer call).2 = m ∨ ∃ a, Replaces a m (m.answer call).2 := by
  cases call with
  | patchFinalizers key version list =>
    rcases commit_cases m (m.patchFinalizers key version list) with ⟨e, hrefused⟩ | hmade
    · exact .inl (congrArg Prod.snd hrefused)
    · exact .inr ⟨_, replaces_patchFinalizers hmade⟩
  | patchHost key version patch =>
    rcases commit_cases m (m.patchHost key version patch) with ⟨e, hrefused⟩ | hmade
    · exact .inl (congrArg Prod.snd hrefused)
    · exact .inr ⟨_, replaces_patchHost hmade⟩
  | _ => exact .inl rfl

/-- Whoever writes touches one place at most, and puts nothing there but what bears the next
version. -/
theorem Write.effect (h : Write m m') : m' = m ∨ ∃ a, Replaces a m m' := by
  cases h with
  | insertConfig c => exact .inr ⟨_, replaces_insertConfig m c⟩
  | insertHost h => exact .inr ⟨_, replaces_insertHost m h⟩
  | insertSecret s => exact .inr ⟨_, replaces_insertSecret m s⟩
  | deleteConfig now key => exact (replaces_deleteConfig m now key).imp_right fun h => ⟨_, h⟩
  | removeHost key => exact .inr ⟨_, replaces_removeHost m key⟩
  | call call => exact replaces_answer m call

end Replaces

section Versioned

variable {m m' m'' : Memory} {a : Slot} {x x' : Item} {later : List Memory}

/-- Every stored object bears a version that was given out, and no two bear the same. -/
structure Versioned (m : Memory) : Prop where
  issued : ∀ a x, m.item? a = some x →
    ∃ n, 1 ≤ n ∧ n ≤ m.version ∧ x.version? = some n.repr
  distinct : ∀ a b x y, m.item? a = some x → m.item? b = some y → x.version? = y.version? → a = b

theorem Write.stamps (h : Write m m') (hx : m'.item? a = some x) (hchanged : m.item? a ≠ some x) :
    m'.version = m.version + 1 ∧ x.version? = some m'.version.repr := by
  rcases h.effect with rfl | ⟨b, hb⟩
  · exact absurd hx hchanged
  · by_cases hab : a = b
    · subst hab
      rcases hb.here with hgone | ⟨y, hy, hversion, hstamp⟩
      · rw [hgone] at hx
        cases hx
      · obtain rfl := Option.some.inj (hy.symm.trans hx)
        exact ⟨hversion, hstamp⟩
    · exact absurd ((hb.elsewhere a hab).symm.trans hx) hchanged

theorem Write.le (h : Write m m') : m.version ≤ m'.version := by
  rcases h.effect with rfl | ⟨a, ha⟩
  · exact Nat.le_refl _
  · exact ha.le

private theorem repr_ne_of_lt {n n' : Nat} (h : n < n') : n.repr ≠ n'.repr := by
  intro heq
  have hn : n = n' := repr_inj heq
  omega

theorem Write.versioned (h : Write m m') (hm : Versioned m) : Versioned m' where
  issued a x hx := by
    by_cases hold : m.item? a = some x
    · obtain ⟨n, hpos, hle, hversion⟩ := hm.issued a x hold
      exact ⟨n, hpos, Nat.le_trans hle h.le, hversion⟩
    · obtain ⟨hnext, hversion⟩ := h.stamps hx hold
      exact ⟨m'.version, by omega, Nat.le_refl _, hversion⟩
  distinct a b x y hx hy hequal := by
    -- A version that is older than the write is not the one that it gave out.
    have holder {d : Slot} {z : Item} (hz : m.item? d = some z)
        (hstamped : z.version? = some (m.version + 1).repr) : False := by
      obtain ⟨n, -, hle, hversion⟩ := hm.issued d z hz
      exact repr_ne_of_lt (Nat.lt_succ_of_le hle) (Option.some.inj (hversion.symm.trans hstamped))
    by_cases hxold : m.item? a = some x <;> by_cases hyold : m.item? b = some y
    · exact hm.distinct a b x y hxold hyold hequal
    · obtain ⟨hnext, hversion⟩ := h.stamps hy hyold
      exact (holder hxold (hequal.trans (hnext ▸ hversion))).elim
    · obtain ⟨hnext, hversion⟩ := h.stamps hx hxold
      exact (holder hyold (hequal.symm.trans (hnext ▸ hversion))).elim
    · rcases h.effect with rfl | ⟨c, hc⟩
      · exact absurd hx hxold
      · have hac : a = c := Decidable.byContradiction fun hne =>
          hxold ((hc.elsewhere a hne).symm.trans hx)
        have hbc : b = c := Decidable.byContradiction fun hne =>
          hyold ((hc.elsewhere b hne).symm.trans hy)
        rw [hac, hbc]

theorem Memory.Reachable.versioned (h : m.Reachable) : Versioned m := by
  unfold Memory.Reachable at h
  induction h with
  | refl =>
    have hnone (a : Slot) (x : Item) : ({} : Memory).item? a ≠ some x := by
      cases a <;> exact nofun
    exact ⟨fun a x hx => absurd hx (hnone a x), fun a _ x _ hx => absurd hx (hnone a x)⟩
  | tail _ hwrite ih => exact hwrite.versioned ih

theorem Succession.writes (h : Succession m later m') : Writes m m' := by
  induction h with
  | stay m => exact .refl
  | write hwrite _ ih => exact .head hwrite ih

theorem Writes.le (h : Writes m m') : m.version ≤ m'.version := by
  induction h with
  | refl => exact Nat.le_refl _
  | tail _ hwrite ih => exact Nat.le_trans ih hwrite.le

theorem Writes.stored (h : Writes m m') (hx : m'.item? a = some x) :
    m.item? a = some x ∨ ∃ n, m.version < n ∧ x.version? = some n.repr := by
  induction h generalizing x with
  | refl => exact .inl hx
  | @tail m' m'' hwrites hwrite ih =>
    by_cases hold : m'.item? a = some x
    · exact ih hold
    · obtain ⟨hnext, hversion⟩ := hwrite.stamps hx hold
      exact .inr ⟨m''.version, by have := Writes.le hwrites; omega, hversion⟩

theorem Succession.untouched (h : Succession m later m') (hm : Versioned m)
    (hx : m.item? a = some x) (hx' : m'.item? a = some x') (hversion : x'.version? = x.version?) :
    ∀ between ∈ later, between.item? a = some x := by
  induction h with
  | stay m => simp
  | @write m m' m'' later hwrite hlater ih =>
    by_cases hstill : m'.item? a = some x
    · simpa [hstill] using ih (hwrite.versioned hm) hstill hx'
    · -- Whatever came in its place is newer, and so is all that came after it.
      obtain ⟨n, -, hn, hissued⟩ := hm.issued a x hx
      have hnewer : ∃ n', n < n' ∧ x'.version? = some n'.repr := by
        rcases Writes.stored hlater.writes hx' with hplaced | ⟨n', hn', hstamp⟩
        · have hchanged : m.item? a ≠ some x' := by
            rw [hx]
            rintro ⟨⟩
            exact hstill hplaced
          obtain ⟨hnext, hstamp⟩ := hwrite.stamps hplaced hchanged
          exact ⟨m'.version, by omega, hstamp⟩
        · exact ⟨n', by have := hwrite.le; omega, hstamp⟩
      obtain ⟨n', hn', hstamp⟩ := hnewer
      have hequal : some n'.repr = some n.repr := hstamp.symm.trans (hversion.trans hissued)
      exact absurd (Option.some.inj hequal).symm (repr_ne_of_lt hn')

theorem Succession.last (h : Succession m later m') (hx : m.item? a = some x)
    (hlater : ∀ between ∈ later, between.item? a = some x) : m'.item? a = some x := by
  induction h with
  | stay m => exact hx
  | write _ _ ih =>
    exact ih (hlater _ (by simp)) fun between hbetween => hlater between (by simp [hbetween])

/-- The object in a place bears the version of an earlier one exactly when nobody has touched the
place since. -/
theorem Succession.current_iff (h : Succession m later m') (hm : Versioned m)
    (hx : m.item? a = some x) :
    (∃ x', m'.item? a = some x' ∧ x'.version? = x.version?) ↔
      ∀ between ∈ later, between.item? a = some x := by
  constructor
  · rintro ⟨x', hx', hversion⟩
    exact h.untouched hm hx hx' hversion
  · exact fun hlater => ⟨x, h.last hx hlater, rfl⟩

end Versioned

section Patches

variable {α : Type} {m m' : Memory} {key : ObjectKey} {version : Option String}
  {later : List Memory} {kind : Kind α} {name : String} {change : α → Memory}

private theorem isCurrent_iff {metadata : ObjectMeta} {v : String} :
    isCurrent metadata (some v) = true ↔ metadata.resourceVersion = some v := by
  simp [isCurrent]

private theorem commit_revise_iff :
    (m.commit (Memory.revise (kind.table m) kind.metadata name key version change)).1 = .ok () ↔
      ∃ x, (kind.table m).get? key = some x ∧ isCurrent (kind.metadata x) version = true := by
  constructor
  · intro h
    obtain ⟨x, hget, hcurrent, -⟩ := revise_eq_ok_iff.1 (commit_eq_ok_iff.1 (Prod.ext h rfl))
    exact ⟨x, hget, hcurrent⟩
  · rintro ⟨x, hget, hcurrent⟩
    rw [revise_eq_ok_iff.2 ⟨x, hget, hcurrent, rfl⟩]
    rfl

variable (kind) in
/-- A patch for the version that was read is applied exactly when nobody has written to the object
since. -/
theorem Succession.revise_iff (h : Succession m later m') (hm : Versioned m) {x : α}
    (hget : (kind.table m).get? key = some x) :
    (m'.commit (Memory.revise (kind.table m') kind.metadata name key
        (kind.metadata x).resourceVersion change)).1 = .ok () ↔
      ∀ between ∈ later, (kind.table between).get? key = some x := by
  have hx : m.item? (kind.slot key) = some (kind.item x) := kind.item?_eq_some_iff.2 hget
  obtain ⟨n, -, -, hissued⟩ := hm.issued _ _ hx
  have hread : (kind.metadata x).resourceVersion = some n.repr := by rwa [← kind.version?_item]
  have hlater := h.current_iff hm hx
  simp only [kind.item?_eq_some_iff] at hlater
  rw [commit_revise_iff, hread, ← hlater, hissued]
  constructor
  · rintro ⟨y, hy, hcurrent⟩
    exact ⟨kind.item y, kind.item?_eq_some_iff.2 hy,
      (kind.version?_item y).trans (isCurrent_iff.1 hcurrent)⟩
  · rintro ⟨y, hy, hversion⟩
    rw [kind.item?_slot, Option.map_eq_some_iff] at hy
    obtain ⟨z, hz, rfl⟩ := hy
    exact ⟨z, hz, isCurrent_iff.2 ((kind.version?_item z).symm.trans hversion)⟩

/-- What is stored in one place is another object afterwards or none, and nothing else has changed.
-/
structure ChangesOnly (a : Slot) (m m' : Memory) : Prop where
  here : m'.item? a ≠ m.item? a
  elsewhere : ∀ b, b ≠ a → m'.item? b = m.item? b

theorem Replaces.changesOnly {a : Slot} {x : Item} (h : Replaces a m m') (hm : Versioned m)
    (hx : m.item? a = some x) : ChangesOnly a m m' where
  here hsame := by
    obtain ⟨n, -, hle, hissued⟩ := hm.issued a x hx
    rcases h.here with hgone | ⟨y, hy, hnext, hstamp⟩
    · rw [← hsame, hgone] at hx
      cases hx
    · obtain rfl := Option.some.inj (hy.symm.trans (hsame.trans hx))
      exact repr_ne_of_lt (by omega : n < m'.version)
        (Option.some.inj (hissued.symm.trans hstamp))
  elsewhere := h.elsewhere

variable (kind) in
theorem Versioned.revised (hm : Versioned m)
    (h : m.commit (Memory.revise (kind.table m) kind.metadata name key version change) =
      (.ok (), m'))
    (hreplaces : Replaces (kind.slot key) m m') :
    ChangesOnly (kind.slot key) m m' ∧ ∃ x, change x = m' := by
  obtain ⟨x, hget, -, hchange⟩ := revise_eq_ok_iff.1 (commit_eq_ok_iff.1 h)
  exact ⟨hreplaces.changesOnly hm (kind.item?_eq_some_iff.2 hget), x, hchange⟩

private theorem commit_refused {change : Except Error Memory} {e : Error}
    (h : (m.commit change).1 = .error e) : (m.commit change).2 = m := by
  rcases commit_cases m change with ⟨e', hrefused⟩ | hmade
  · rw [hrefused]
  · rw [hmade] at h
    cases h

theorem answer_refused {call : StoreCall} {e : Error} (h : (m.answer call).1 = .error e) :
    (m.answer call).2 = m := by
  cases call with
  | patchFinalizers key version list => exact commit_refused h
  | patchHost key version patch => exact commit_refused h
  | _ => rfl

end Patches

/-- What holds of a cluster at any time, whatever was written to it so far.

Versions are given out once: each stored object bears one of those that were, no two the same, and
whatever a write adds or changes bears a greater one than any that was given out before. A patch for
a version that was read is applied exactly when nobody has written to that object since, be it a
patch, a replacement, a deletion mark, a removal, or a removal with a new object in its place. A
refused call changes nothing; an applied patch changes one object and one of the two counts. -/
structure OptimisticConcurrency (m : Memory) : Prop where
  versions : Versioned m
  stamps : ∀ m', Write m m' → ∀ a x, m'.item? a = some x → m.item? a ≠ some x →
    x.version? = some m'.version.repr ∧ ∀ earlier, Writes earlier m → earlier.version < m'.version
  patchFinalizers : ∀ later m', Succession m later m' → ∀ key c, m.configs.get? key = some c →
    ∀ list, (m'.answer (.patchFinalizers key c.metadata.resourceVersion list)).1 = .ok () ↔
      ∀ between ∈ later, between.configs.get? key = some c
  patchHost : ∀ later m', Succession m later m' → ∀ key h, m.hosts.get? key = some h →
    ∀ patch, (m'.answer (.patchHost key h.metadata.resourceVersion patch)).1 = .ok () ↔
      ∀ between ∈ later, between.hosts.get? key = some h
  refused : ∀ call e, (m.answer call).1 = .error e → (m.answer call).2 = m
  patchedFinalizers : ∀ key version list m', m.answer (.patchFinalizers key version list) =
    (.ok (), m') → ChangesOnly (.config key) m m' ∧
      m'.configPatches = m.configPatches + 1 ∧ m'.hostPatches = m.hostPatches
  patchedHost : ∀ key version patch m', m.answer (.patchHost key version patch) = (.ok (), m') →
    ChangesOnly (.host key) m m' ∧
      m'.hostPatches = m.hostPatches + 1 ∧ m'.configPatches = m.configPatches

/-- Whatever any number of clients have written, each write on its own, the cluster keeps to
optimistic concurrency. -/
theorem optimistic_concurrency {m : Memory} (hm : m.Reachable) : OptimisticConcurrency m where
  versions := hm.versioned
  stamps m' hwrite a x hx hchanged := by
    obtain ⟨hnext, hstamp⟩ := hwrite.stamps hx hchanged
    refine ⟨hstamp, fun earlier hearlier => ?_⟩
    have hle : earlier.version ≤ m.version := Writes.le hearlier
    omega
  patchFinalizers _ _ h _ _ hget _ := h.revise_iff Kind.config hm.versioned hget
  patchHost _ _ h _ _ hget _ := h.revise_iff Kind.host hm.versioned hget
  refused _ _ h := answer_refused h
  patchedFinalizers key version list m' h := by
    obtain ⟨honly, c, rfl⟩ := hm.versioned.revised Kind.config h
      (replaces_patchFinalizers (commit_eq_ok_iff.1 h))
    exact ⟨honly, rfl, rfl⟩
  patchedHost key version patch m' h := by
    obtain ⟨honly, host, rfl⟩ := hm.versioned.revised Kind.host h
      (replaces_patchHost (commit_eq_ok_iff.1 h))
    exact ⟨honly, rfl, rfl⟩

private def siteSlot : ObjectKey := ⟨"edge", "site"⟩

private def presetConfig : ClusterConfig where
  metadata := { name := some "site", space := some "edge", resourceVersion := some "7" }
  spec := { relocation := { domain := "example.com" } }

private def firstMade : Memory := ({} : Memory).insertConfig presetConfig

private def takenAway : Memory := firstMade.deleteConfig default siteSlot

private def madeAnew : Memory := takenAway.insertConfig presetConfig

/-- A config that was taken away and made anew in the same place does not take a patch for the
version that it had before. -/
theorem patch_refused_anew :
    firstMade.Reachable ∧ Succession firstMade [takenAway, madeAnew] madeAnew ∧
      ∃ c, firstMade.configs.get? siteSlot = some c ∧
        (madeAnew.answer (.patchFinalizers siteSlot c.metadata.resourceVersion [ourFinalizer])).1 ≠
          .ok () := by
  have hreachable : firstMade.Reachable := .single (.insertConfig _ presetConfig)
  have hcourse : Succession firstMade [takenAway, madeAnew] madeAnew :=
    .write (.deleteConfig _ default siteSlot) (.write (.insertConfig _ presetConfig) (.stay _))
  have hread : firstMade.configs.get? siteSlot =
      some { presetConfig with metadata := stamped presetConfig.metadata 1 } := rfl
  refine ⟨hreachable, hcourse, _, hread, fun happlied => ?_⟩
  have huntouched := ((optimistic_concurrency hreachable).patchFinalizers _ _ hcourse _ _ hread
    [ourFinalizer]).1 happlied
  have hgone : takenAway.configs.get? siteSlot = none := rfl
  exact nomatch hgone.symm.trans (huntouched takenAway (by simp))

end Relocation.Store
