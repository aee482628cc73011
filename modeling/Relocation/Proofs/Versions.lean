import Mathlib.Logic.Relation
import Relocation.Proofs.Patches

/-!
Writes to a cluster kept in memory, whoever makes them. After any writes a stored object is the one
that was stored before, or it bears a version that was given out since (`Writes.advances`), and a
config is stored under its own key (`Reachable.keyed`).
-/

set_option autoImplicit false

namespace Relocation.Store

/-- A write to a cluster, or a call that may come to one. -/
inductive Write : Memory → Memory → Prop
  | insertConfig (m : Memory) (c : ClusterConfig) : Write m (m.insertConfig c)
  | insertHost (m : Memory) (h : Host) : Write m (m.insertHost h)
  | insertSecret (m : Memory) (s : Secret) : Write m (m.insertSecret s)
  | deleteConfig (m : Memory) (now : Time.Timestamp) (key : ObjectKey) :
      Write m (m.deleteConfig now key)
  | removeHost (m : Memory) (key : ObjectKey) : Write m (m.removeHost key)
  | call (m : Memory) (call : StoreCall) : Write m (m.answer call).2

abbrev Writes : Memory → Memory → Prop := Relation.ReflTransGen Write

/-- The states that writes lead to from an empty cluster. -/
def Memory.Reachable (m : Memory) : Prop := Writes {} m

theorem repr_inj {n n' : Nat} (h : n.repr = n'.repr) : n = n' := by
  have hdigits : Nat.toDigits 10 n = Nat.toDigits 10 n' := by
    simpa [Nat.repr] using congrArg String.toList h
  rw [← Nat.ofDigitChars_toDigits (b := 10) (n := n) (by omega) (by omega), hdigits,
    Nat.ofDigitChars_toDigits (by omega) (by omega)]

section Renewed

variable {α : Type} {metadata : α → ObjectMeta} {v v' v'' : Nat} {t t' t'' : Table ObjectKey α}

/-- Every object of a table stood in an earlier one, or it bears a version that was given out
since. -/
structure Renewed (metadata : α → ObjectMeta) (v v' : Nat) (t t' : Table ObjectKey α) : Prop where
  le : v ≤ v'
  object : ∀ k x, t'.get? k = some x → t.get? k = some x ∨
    ∃ n, v < n ∧ n ≤ v' ∧ (metadata x).resourceVersion = some n.repr

theorem renewed_same (h : v ≤ v') (t : Table ObjectKey α) : Renewed metadata v v' t t :=
  ⟨h, fun _ _ => .inl⟩

theorem Renewed.trans (h : Renewed metadata v v' t t') (h' : Renewed metadata v' v'' t' t'') :
    Renewed metadata v v'' t t'' where
  le := Nat.le_trans h.le h'.le
  object k x hx := by
    rcases h'.object k x hx with hx | ⟨n, hn, hle, hversion⟩
    · rcases h.object k x hx with hx | ⟨n, hn, hle, hversion⟩
      · exact .inl hx
      · exact .inr ⟨n, hn, Nat.le_trans hle h'.le, hversion⟩
    · exact .inr ⟨n, Nat.lt_of_le_of_lt h.le hn, hle, hversion⟩

theorem renewed_insert (t : Table ObjectKey α) (k : ObjectKey) {x : α}
    (hx : (metadata x).resourceVersion = some (v + 1).repr) :
    Renewed metadata v (v + 1) t (t.insert k x) where
  le := Nat.le_succ v
  object k' x' hx' := by
    by_cases hk : k' = k
    · rw [hk, Table.get?_insert_self] at hx'
      obtain rfl := Option.some.inj hx'
      exact .inr ⟨v + 1, Nat.lt_succ_self v, Nat.le_refl _, hx⟩
    · rw [Table.get?_insert_of_ne _ _ hk] at hx'
      exact .inl hx'

theorem renewed_erase (h : v ≤ v') (t : Table ObjectKey α) (k : ObjectKey) :
    Renewed metadata v v' t (t.erase k) where
  le := h
  object k' x' hx' := by
    by_cases hk : k' = k
    · simp [hk] at hx'
    · rw [Table.get?_erase_of_ne _ hk] at hx'
      exact .inl hx'

end Renewed

section Writes

variable {m m' m'' : Memory}

/-- What becomes of the configs and the hosts of a cluster. -/
structure Advances (m m' : Memory) : Prop where
  configs : Renewed ClusterConfig.metadata m.version m'.version m.configs m'.configs
  hosts : Renewed Host.metadata m.version m'.version m.hosts m'.hosts

theorem Advances.refl (m : Memory) : Advances m m :=
  ⟨renewed_same (Nat.le_refl _) _, renewed_same (Nat.le_refl _) _⟩

theorem Advances.trans (h : Advances m m') (h' : Advances m' m'') : Advances m m'' :=
  ⟨h.configs.trans h'.configs, h.hosts.trans h'.hosts⟩

private theorem advances_deleteConfig (now : Time.Timestamp) (key : ObjectKey) :
    Advances m (m.deleteConfig now key) := by
  unfold Memory.deleteConfig
  split
  · exact .refl m
  · split
    · exact ⟨renewed_erase (Nat.le_refl _) _ _, renewed_same (Nat.le_refl _) _⟩
    · split
      · exact .refl m
      · exact ⟨renewed_insert _ _ rfl, renewed_same (Nat.le_succ _) _⟩

private theorem advances_patchFinalizers {key : ObjectKey} {version : Option String}
    {finalizers : List String} (h : m.patchFinalizers key version finalizers = .ok m') :
    Advances m m' := by
  obtain ⟨c, -, -, rfl⟩ := revise_eq_ok_iff.1 h
  refine ⟨?_, renewed_same (Nat.le_succ _) _⟩
  dsimp only
  split
  · exact renewed_erase (Nat.le_succ _) _ _
  · exact renewed_insert _ _ rfl

private theorem advances_patchHost {key : ObjectKey} {version : Option String} {patch : HostPatch}
    (h : m.patchHost key version patch = .ok m') : Advances m m' := by
  obtain ⟨host, -, -, rfl⟩ := revise_eq_ok_iff.1 h
  exact ⟨renewed_same (Nat.le_succ _) _, renewed_insert _ _ rfl⟩

theorem advances_answer (m : Memory) (call : StoreCall) : Advances m (m.answer call).2 := by
  cases call with
  | patchFinalizers key version finalizers =>
    rcases commit_cases m (m.patchFinalizers key version finalizers) with ⟨e, hrefused⟩ | hmade
    · exact congrArg Prod.snd hrefused ▸ .refl m
    · exact advances_patchFinalizers hmade
  | patchHost key version patch =>
    rcases commit_cases m (m.patchHost key version patch) with ⟨e, hrefused⟩ | hmade
    · exact congrArg Prod.snd hrefused ▸ .refl m
    · exact advances_patchHost hmade
  | _ => exact .refl m

theorem Write.advances (h : Write m m') : Advances m m' := by
  cases h with
  | insertConfig c => exact ⟨renewed_insert _ _ rfl, renewed_same (Nat.le_succ _) _⟩
  | insertHost h => exact ⟨renewed_same (Nat.le_succ _) _, renewed_insert _ _ rfl⟩
  | insertSecret s => exact ⟨renewed_same (Nat.le_succ _) _, renewed_same (Nat.le_succ _) _⟩
  | deleteConfig now key => exact advances_deleteConfig now key
  | removeHost key =>
    exact ⟨renewed_same (Nat.le_refl _) _, renewed_erase (Nat.le_refl _) _ _⟩
  | call call => exact advances_answer m call

/-- Nothing is stored that was not there before and has not got a version since. -/
theorem Writes.advances (h : Writes m m') : Advances m m' := by
  induction h with
  | refl => exact .refl m
  | tail _ hwrite ih => exact ih.trans hwrite.advances

end Writes

section Keyed

variable {m m' : Memory}

/-- Whether every config is stored under its own key. -/
def Memory.Keyed (m : Memory) : Prop := ∀ k c, m.configs.get? k = some c → c.key = k

private theorem keyed_same (h : m.Keyed) (hconfigs : m'.configs = m.configs) : m'.Keyed := by
  rw [Memory.Keyed, hconfigs]
  exact h

theorem keyed_insert (h : m.Keyed) {k : ObjectKey} {c : ClusterConfig}
    (hconfigs : m'.configs = m.configs.insert k c) (hc : c.key = k) : m'.Keyed := by
  intro k' c' hget
  rw [hconfigs] at hget
  by_cases hk : k' = k
  · rw [hk, Table.get?_insert_self] at hget
    rw [hk, ← Option.some.inj hget, hc]
  · rw [Table.get?_insert_of_ne _ _ hk] at hget
    exact h k' c' hget

private theorem keyed_erase (h : m.Keyed) {k : ObjectKey}
    (hconfigs : m'.configs = m.configs.erase k) : m'.Keyed := by
  intro k' c' hget
  rw [hconfigs] at hget
  by_cases hk : k' = k
  · simp [hk] at hget
  · rw [Table.get?_erase_of_ne _ hk] at hget
    exact h k' c' hget

private theorem keyed_answer (h : m.Keyed) (call : StoreCall) : (m.answer call).2.Keyed := by
  cases call with
  | patchFinalizers key version list =>
    rcases answer_patchFinalizers_configs m key version list with
      hsame | ⟨c, hget, ⟨-, herased⟩ | ⟨_, hpatched⟩⟩
    · exact keyed_same h hsame
    · exact keyed_erase h herased
    · exact keyed_insert h hpatched (h key c hget)
  | patchHost key version patch =>
    exact keyed_same h (configs_answer_patchHost m key version patch)
  | _ => exact h

theorem Write.keyed (h : Write m m') (hm : m.Keyed) : m'.Keyed := by
  cases h with
  | insertConfig c => exact keyed_insert hm rfl rfl
  | insertHost h => exact hm
  | insertSecret s => exact hm
  | deleteConfig now key =>
    rcases deleteConfig_configs m now key with hsame | ⟨c, hget, ⟨-, herased⟩ | ⟨_, hmarked⟩⟩
    · exact keyed_same hm hsame
    · exact keyed_erase hm herased
    · exact keyed_insert hm hmarked (hm key c hget)
  | removeHost key => exact hm
  | call call => exact keyed_answer hm call

theorem Memory.Reachable.keyed (h : m.Reachable) : m.Keyed := by
  unfold Memory.Reachable at h
  induction h with
  | refl => exact fun k c hget => nomatch hget
  | tail _ hwrite ih => exact hwrite.keyed ih

end Keyed

end Relocation.Store
