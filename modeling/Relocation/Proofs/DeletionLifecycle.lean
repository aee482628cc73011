import Relocation.Proofs.Versions

/-!
How configs come to their end in a cluster kept in memory. An operation turns the config that it is
about in one of a few ways (`Turns`), and no other config. So over any history a config that is
marked for deletion has finalizers (`wellGuarded_after`), bears the moment of its first mark until
it is replaced (`keepsMark_run`), and goes by one of two operations only (`deletion_lifecycle`).
-/

set_option autoImplicit false

namespace Relocation.Store

/-- An operation on the configs of a cluster: one is put in, its deletion is asked for, or its
finalizers are replaced. -/
inductive ConfigOp
  | insert (c : ClusterConfig)
  | delete (now : Time.Timestamp) (key : ObjectKey)
  | patch (key : ObjectKey) (version : Option String) (finalizers : List String)

namespace ConfigOp

/-- The key of the config that an operation is about. -/
def key : ConfigOp → ObjectKey
  | insert c => c.key
  | delete _ key => key
  | patch key _ _ => key

/-- Whether an operation puts in no config that is marked for deletion. -/
def PutsUnmarked : ConfigOp → Prop
  | insert c => c.metadata.deletionTimestamp = none
  | _ => True

def Puts (k : ObjectKey) : ConfigOp → Prop
  | insert c => c.key = k
  | _ => False

end ConfigOp

namespace Memory

def perform (m : Memory) : ConfigOp → Memory
  | .insert c => m.insertConfig c
  | .delete now key => m.deleteConfig now key
  | .patch key version finalizers => (m.answer (.patchFinalizers key version finalizers)).2

/-- The cluster after operations, one after the other. -/
def performAll (m : Memory) (ops : List ConfigOp) : Memory := ops.foldl perform m

/-- Whether an operation ends the life of a stored config: its deletion is asked for when it has no
finalizers, or a patch that empties the finalizers is applied when it is marked for deletion. -/
def Ends (m : Memory) (k : ObjectKey) (c : ClusterConfig) : ConfigOp → Prop
  | .insert _ => False
  | .delete _ key =>
    key = k ∧ (c.metadata.finalizers = none ∨ c.metadata.finalizers = some [])
  | .patch key version finalizers =>
    key = k ∧ finalizers = [] ∧ c.metadata.isDeleting = true ∧
      (m.answer (.patchFinalizers key version finalizers)).1 = .ok ()

end Memory

/-- A config that is marked for deletion at some moment, with the version of the mark. -/
def marked (c : ClusterConfig) (now : Time.Timestamp) (version : Nat) : ClusterConfig :=
  { c with metadata := stamped { c.metadata with deletionTimestamp := some now } version }

/-- What an operation makes of the config that it is about, when the given number of versions was
given out before. -/
inductive Turns (version : Nat) : ConfigOp → Option ClusterConfig → Option ClusterConfig → Prop
  | put (c : ClusterConfig) (before : Option ClusterConfig) :
      Turns version (.insert c) before
        (some { c with metadata := stamped c.metadata (version + 1) })
  | missed {o : ConfigOp} : (∀ c, o ≠ .insert c) → Turns version o none none
  | gone {c : ClusterConfig} (now : Time.Timestamp) (k : ObjectKey) :
      c.metadata.finalizerList = [] → Turns version (.delete now k) (some c) none
  | mark {c : ClusterConfig} (now : Time.Timestamp) (k : ObjectKey) :
      c.metadata.finalizerList ≠ [] → c.metadata.isDeleting = false →
      Turns version (.delete now k) (some c) (some (marked c now (version + 1)))
  | again {c : ClusterConfig} (now : Time.Timestamp) (k : ObjectKey) :
      c.metadata.finalizerList ≠ [] → c.metadata.isDeleting = true →
      Turns version (.delete now k) (some c) (some c)
  | refused {c : ClusterConfig} {expected : Option String} (k : ObjectKey) (list : List String) :
      isCurrent c.metadata expected = false →
      Turns version (.patch k expected list) (some c) (some c)
  | released {c : ClusterConfig} {expected : Option String} (k : ObjectKey) :
      isCurrent c.metadata expected = true → c.metadata.isDeleting = true →
      Turns version (.patch k expected []) (some c) none
  | patched {c : ClusterConfig} {expected : Option String} (k : ObjectKey) {list : List String} :
      isCurrent c.metadata expected = true → (list = [] → c.metadata.isDeleting = false) →
      Turns version (.patch k expected list) (some c)
        (some (c.withFinalizers (Memory.storedFinalizers list) (some (version + 1).repr)))

/-- Whether a config has finalizers if it is marked for deletion. -/
def WellGuarded (c : ClusterConfig) : Prop :=
  c.metadata.isDeleting = true → c.metadata.finalizerList ≠ []

section Operations

variable {m : Memory} {k : ObjectKey} {c c' : ClusterConfig} {o : ConfigOp}

private theorem deleteConfig_unguarded (now : Time.Timestamp) (hget : m.configs.get? k = some c)
    (hempty : c.metadata.finalizerList = []) :
    m.deleteConfig now k = { m with configs := m.configs.erase k } := by
  simp only [Memory.deleteConfig, hget, hempty, List.isEmpty_nil, if_true]

private theorem deleteConfig_unmarked (now : Time.Timestamp) (hget : m.configs.get? k = some c)
    (hfinalizers : c.metadata.finalizerList ≠ []) (hunmarked : c.metadata.isDeleting = false) :
    m.deleteConfig now k =
      { m with
        configs := m.configs.insert k (marked c now (m.version + 1))
        version := m.version + 1 } := by
  have hlist : c.metadata.finalizerList.isEmpty = false := by simpa using hfinalizers
  simp only [Memory.deleteConfig, hget, hlist, hunmarked, Bool.false_eq_true, if_false, marked]

private theorem deleteConfig_marked (now : Time.Timestamp) (hget : m.configs.get? k = some c)
    (hfinalizers : c.metadata.finalizerList ≠ []) (hmarked : c.metadata.isDeleting = true) :
    m.deleteConfig now k = m := by
  have hlist : c.metadata.finalizerList.isEmpty = false := by simpa using hfinalizers
  simp only [Memory.deleteConfig, hget, hlist, hmarked, Bool.false_eq_true, if_false, if_true]

private theorem turns_delete (m : Memory) (now : Time.Timestamp) (k : ObjectKey) :
    Turns m.version (.delete now k) (m.configs.get? k)
      ((m.deleteConfig now k).configs.get? k) := by
  cases hget : m.configs.get? k with
  | none =>
    have hsame : m.deleteConfig now k = m := by simp only [Memory.deleteConfig, hget]
    rw [hsame, hget]
    exact .missed fun c heq => ConfigOp.noConfusion heq
  | some c =>
    by_cases hempty : c.metadata.finalizerList = []
    · rw [deleteConfig_unguarded now hget hempty, Table.get?_erase_self]
      exact .gone now k hempty
    · cases hdeleting : c.metadata.isDeleting with
      | true =>
        rw [deleteConfig_marked now hget hempty hdeleting, hget]
        exact .again now k hempty hdeleting
      | false =>
        rw [deleteConfig_unmarked now hget hempty hdeleting, Table.get?_insert_self]
        exact .mark now k hempty hdeleting

private theorem turns_patch (m : Memory) (k : ObjectKey) (expected : Option String)
    (list : List String) :
    Turns m.version (.patch k expected list) (m.configs.get? k)
      ((m.answer (.patchFinalizers k expected list)).2.configs.get? k) := by
  cases hget : m.configs.get? k with
  | none =>
    simp only [Memory.answer, Memory.patchFinalizers, Memory.revise, hget, Memory.commit]
    exact .missed fun c heq => ConfigOp.noConfusion heq
  | some c =>
    cases hcurrent : isCurrent c.metadata expected with
    | false =>
      simp only [Memory.answer, Memory.patchFinalizers, Memory.revise, hget, hcurrent,
        Bool.not_false, if_true, Memory.commit]
      exact .refused k list hcurrent
    | true =>
      by_cases hreleased : list = [] ∧ c.metadata.isDeleting = true
      · obtain ⟨rfl, hdeleting⟩ := hreleased
        simp only [Memory.answer, Memory.patchFinalizers, Memory.revise, hget, hcurrent,
          Bool.not_true, Bool.false_eq_true, if_false, Memory.commit, List.isEmpty_nil, hdeleting,
          Bool.and_self, if_true, Table.get?_erase_self]
        exact .released k hcurrent hdeleting
      · have hkept : (list.isEmpty && c.metadata.isDeleting) = false := by
          simpa using hreleased
        simp only [Memory.answer, Memory.patchFinalizers, Memory.revise, hget, hcurrent,
          Bool.not_true, Bool.false_eq_true, if_false, Memory.commit, hkept,
          Table.get?_insert_self]
        refine .patched k hcurrent fun hlist => ?_
        simpa [hlist] using hreleased

theorem turns_perform (m : Memory) (o : ConfigOp) :
    Turns m.version o (m.configs.get? o.key) ((m.perform o).configs.get? o.key) := by
  cases o with
  | insert c =>
    rw [Memory.perform, Memory.insertConfig, ConfigOp.key, Table.get?_insert_self]
    exact .put c _
  | delete now k => exact turns_delete m now k
  | patch k expected list => exact turns_patch m k expected list

theorem perform_elsewhere (h : k ≠ o.key) :
    (m.perform o).configs.get? k = m.configs.get? k := by
  cases o with
  | insert c => exact Table.get?_insert_of_ne _ _ h
  | delete now key =>
    have h : k ≠ key := h
    rcases deleteConfig_configs m now key with hsame | ⟨c, -, ⟨-, herased⟩ | ⟨_, hmarked⟩⟩
    · rw [Memory.perform, hsame]
    · rw [Memory.perform, herased, Table.get?_erase_of_ne _ h]
    · rw [Memory.perform, hmarked, Table.get?_insert_of_ne _ _ h]
  | patch key expected list =>
    have h : k ≠ key := h
    rcases answer_patchFinalizers_configs m key expected list with
      hsame | ⟨c, -, ⟨-, herased⟩ | ⟨_, hpatched⟩⟩
    · rw [Memory.perform, hsame]
    · rw [Memory.perform, herased, Table.get?_erase_of_ne _ h]
    · rw [Memory.perform, hpatched, Table.get?_insert_of_ne _ _ h]

private theorem Turns.wellGuarded {version : Nat} {before after : Option ClusterConfig}
    (h : Turns version o before after) (ho : o.PutsUnmarked)
    (hbefore : ∀ c, before = some c → WellGuarded c) : ∀ c, after = some c → WellGuarded c := by
  intro c' hafter
  cases h with
  | put c =>
    intro hdeleting
    obtain rfl := Option.some.inj hafter
    have hunmarked : c.metadata.deletionTimestamp = none := ho
    simp [stamped, ObjectMeta.isDeleting, hunmarked] at hdeleting
  | missed => cases hafter
  | gone => cases hafter
  | mark now k hfinalizers =>
    obtain rfl := Option.some.inj hafter
    exact fun _ => hfinalizers
  | again => exact hbefore c' hafter
  | refused => exact hbefore c' hafter
  | released => cases hafter
  | @patched c expected k list _ hlist =>
    obtain rfl := Option.some.inj hafter
    intro hdeleting
    have hne : list ≠ [] := fun heq => Bool.false_ne_true ((hlist heq).symm.trans hdeleting)
    simp [ClusterConfig.withFinalizers, Memory.storedFinalizers, ObjectMeta.finalizerList, hne]

/-- After any history every config that is marked for deletion has finalizers. -/
theorem wellGuarded_after {ops : List ConfigOp} (hops : ∀ o ∈ ops, o.PutsUnmarked)
    (hm : ∀ k c, m.configs.get? k = some c → WellGuarded c) :
    ∀ k c, (m.performAll ops).configs.get? k = some c → WellGuarded c := by
  induction ops generalizing m with
  | nil => exact hm
  | cons o ops ih =>
    refine ih (fun o' ho' => hops o' (List.mem_cons_of_mem _ ho')) fun k c hget => ?_
    by_cases hk : k = o.key
    · rw [hk] at hget
      exact (turns_perform m o).wellGuarded (hops o List.mem_cons_self) (hm o.key) c hget
    · rw [perform_elsewhere hk] at hget
      exact hm k c hget

private theorem Turns.deletionTimestamp {version : Nat} {now : Time.Timestamp}
    {before after : Option ClusterConfig} (h : Turns version o before after)
    (hbefore : ∀ c, before = some c → c.metadata.deletionTimestamp = some now)
    (hput : ∀ c, o ≠ .insert c) :
    ∀ c, after = some c → c.metadata.deletionTimestamp = some now := by
  intro c' hafter
  cases h with
  | put c => exact absurd rfl (hput c)
  | missed => cases hafter
  | gone => cases hafter
  | @mark c _ _ _ hunmarked =>
    simp [ObjectMeta.isDeleting, hbefore c rfl] at hunmarked
  | again => exact hbefore c' hafter
  | refused => exact hbefore c' hafter
  | released => cases hafter
  | @patched c =>
    obtain rfl := Option.some.inj hafter
    exact hbefore c rfl

/-- A mark stays as it is over any history in which its config is not replaced. -/
theorem keepsMark_run {ops : List ConfigOp} {now : Time.Timestamp}
    (hops : ∀ o ∈ ops, ¬o.Puts k)
    (hm : ∀ c, m.configs.get? k = some c → c.metadata.deletionTimestamp = some now) :
    ∀ c, (m.performAll ops).configs.get? k = some c →
      c.metadata.deletionTimestamp = some now := by
  induction ops generalizing m with
  | nil => exact hm
  | cons o ops ih =>
    refine ih (fun o' ho' => hops o' (List.mem_cons_of_mem _ ho')) fun c hget => ?_
    by_cases hk : k = o.key
    · rw [hk] at hget hm
      refine (turns_perform m o).deletionTimestamp hm ?_ c hget
      rintro d rfl
      exact hops (.insert d) List.mem_cons_self hk.symm
    · rw [perform_elsewhere hk] at hget
      exact hm c hget

private theorem deletionTimestamp_patch {key : ObjectKey} {expected : Option String}
    {list : List String} (hget : m.configs.get? k = some c)
    (hafter : (m.perform (.patch key expected list)).configs.get? k = some c') :
    c'.metadata.deletionTimestamp = c.metadata.deletionTimestamp := by
  by_cases hk : k = key
  · subst hk
    have hturn := turns_perform m (.patch k expected list)
    rw [ConfigOp.key, hget, hafter] at hturn
    cases hturn <;> rfl
  · rw [perform_elsewhere (o := .patch key expected list) hk, hget] at hafter
    rw [Option.some.inj hafter]

private theorem deleteConfig_again (now later : Time.Timestamp)
    (hget : m.configs.get? k = some c) (hfinalizers : c.metadata.finalizerList ≠ []) :
    (m.deleteConfig now k).deleteConfig later k = m.deleteConfig now k := by
  cases hdeleting : c.metadata.isDeleting with
  | true =>
    rw [deleteConfig_marked now hget hfinalizers hdeleting,
      deleteConfig_marked later hget hfinalizers hdeleting]
  | false =>
    have hmarked := deleteConfig_unmarked now hget hfinalizers hdeleting
    rw [hmarked]
    exact deleteConfig_marked (c := marked c now (m.version + 1)) later
      (Table.get?_insert_self _ _ _) hfinalizers rfl

private theorem finalizerList_eq_nil (metadata : ObjectMeta) : metadata.finalizerList = [] ↔
    metadata.finalizers = none ∨ metadata.finalizers = some [] := by
  rw [ObjectMeta.finalizerList]
  cases metadata.finalizers <;> simp

private theorem applied_iff {expected : Option String} {list : List String}
    (hget : m.configs.get? k = some c) :
    (m.answer (.patchFinalizers k expected list)).1 = .ok () ↔
      isCurrent c.metadata expected = true := by
  rw [Memory.answer, Memory.patchFinalizers, Memory.revise, hget]
  dsimp only
  cases isCurrent c.metadata expected <;> simp [Memory.commit]

private theorem gone_iff_ends (hget : m.configs.get? k = some c) (o : ConfigOp) :
    (m.perform o).configs.get? k = none ↔ m.Ends k c o := by
  by_cases hk : k = o.key
  · have hturn := turns_perform m o
    rw [← hk, hget] at hturn
    generalize (m.perform o).configs.get? k = after at hturn ⊢
    cases hturn with
    | put c => simp [Memory.Ends]
    | gone now key hempty =>
      obtain rfl : k = key := hk
      simp [Memory.Ends, ← finalizerList_eq_nil, hempty]
    | mark now key hfinalizers =>
      simp [Memory.Ends, ← finalizerList_eq_nil, hfinalizers]
    | again now key hfinalizers =>
      simp [Memory.Ends, ← finalizerList_eq_nil, hfinalizers]
    | @refused _ expected key list hstale =>
      obtain rfl : k = key := hk
      simp [Memory.Ends, applied_iff hget, hstale]
    | @released _ expected key hcurrent hdeleting =>
      obtain rfl : k = key := hk
      simp [Memory.Ends, applied_iff hget, hcurrent, hdeleting]
    | @patched _ expected key list hcurrent hlist =>
      simp only [Memory.Ends, reduceCtorEq, false_iff]
      rintro ⟨-, hempty, hdeleting, -⟩
      exact Bool.false_ne_true ((hlist hempty).symm.trans hdeleting)
  · rw [perform_elsewhere hk, hget]
    cases o with
    | insert d => simp [Memory.Ends]
    | delete now key => simpa [Memory.Ends] using fun heq => absurd heq.symm hk
    | patch key expected list => simpa [Memory.Ends] using fun heq => absurd heq.symm hk

end Operations

/-- How configs come to their end, in the state of a cluster that a history led to. -/
structure DeletionLawful (m : Memory) : Prop where
  /-- A config that is marked for deletion has a finalizer. -/
  guarded : ∀ k c, m.configs.get? k = some c → c.metadata.deletionTimestamp.isSome = true →
    ∃ f, f ∈ c.metadata.finalizerList
  /-- A first request marks a config that has finalizers with the moment and a new version. -/
  marks : ∀ k c now, m.configs.get? k = some c → c.metadata.finalizerList ≠ [] →
    c.metadata.deletionTimestamp = none → m.deleteConfig now k =
      { m with
        configs := m.configs.insert k (marked c now (m.version + 1))
        version := m.version + 1 }
  /-- A repeated request changes nothing. -/
  repeated : ∀ k c now later, m.configs.get? k = some c → c.metadata.finalizerList ≠ [] →
    (m.deleteConfig now k).deleteConfig later k = m.deleteConfig now k
  /-- The mark is there to stay, whatever comes after it, unless another config is put in the
  place of the marked one. -/
  stays : ∀ k c now, m.configs.get? k = some c → c.metadata.deletionTimestamp = some now →
    ∀ later : List ConfigOp, (∀ o ∈ later, ¬o.Puts k) →
      ∀ c', (m.performAll later).configs.get? k = some c' →
        c'.metadata.deletionTimestamp = some now
  /-- No patch, applied or refused, gives a config another mark than it had, if any. -/
  unaltered : ∀ key expected list k c c', m.configs.get? k = some c →
    (m.perform (.patch key expected list)).configs.get? k = some c' →
      c'.metadata.deletionTimestamp = c.metadata.deletionTimestamp
  /-- A config goes with an operation exactly when the operation ends its life. -/
  goes : ∀ k c o, m.configs.get? k = some c →
    ((m.perform o).configs.get? k = none ↔ m.Ends k c o)

/-- Every history of a cluster that was empty at first, in which only configs without a mark are
put in, leads to a state in which configs come to their end by the rules. -/
theorem deletion_lifecycle (ops : List ConfigOp) (hops : ∀ o ∈ ops, o.PutsUnmarked) :
    DeletionLawful (Memory.performAll {} ops) where
  guarded k c hget hmarked := by
    have hempty : ∀ k c, ({} : Memory).configs.get? k = some c → WellGuarded c :=
      fun k c hnone => nomatch hnone
    exact List.exists_mem_of_ne_nil _ (wellGuarded_after hops hempty k c hget hmarked)
  marks k c now hget hfinalizers hunmarked :=
    deleteConfig_unmarked now hget hfinalizers (by rw [ObjectMeta.isDeleting, hunmarked]; rfl)
  repeated k c now later hget hfinalizers := deleteConfig_again now later hget hfinalizers
  stays k c now hget hmark later hlater := by
    refine keepsMark_run hlater fun d hd => ?_
    rw [← Option.some.inj (hget.symm.trans hd)]
    exact hmark
  unaltered key expected list k c c' hget hafter := deletionTimestamp_patch hget hafter
  goes k c o hget := gone_iff_ends hget o

def departing : ClusterConfig where
  metadata :=
    { name := some "site", space := some "edge", finalizers := some [ourFinalizer, "other"] }
  spec := { relocation := { domain := "example.com" } }

/-- A config is put in, its deletion is asked for twice, and its finalizers go one after the other,
the second one by a patch for any version. -/
def departure : List ConfigOp :=
  [.insert departing, .delete default departing.key, .delete default departing.key,
    .patch departing.key (some "2") ["other"], .patch departing.key none []]

theorem deletion_lifecycle_departure : (∀ o ∈ departure, o.PutsUnmarked) ∧
    DeletionLawful (Memory.performAll {} departure) ∧
    (Memory.performAll {} (departure.take 4)).configs.get? departing.key =
      some { departing with metadata :=
        { departing.metadata with
          finalizers := some ["other"]
          deletionTimestamp := some default
          resourceVersion := some "3" } } ∧
    (Memory.performAll {} departure).configs.get? departing.key = none := by
  have hunmarked : ∀ o ∈ departure, o.PutsUnmarked := by
    simp [departure, ConfigOp.PutsUnmarked, departing]
  exact ⟨hunmarked, deletion_lifecycle departure hunmarked, rfl, rfl⟩

end Relocation.Store
