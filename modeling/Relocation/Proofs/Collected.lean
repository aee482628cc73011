import Mathlib.Data.List.Basic
import Relocation.Proofs.Exports
import Relocation.Proofs.Partway

/-!
What is collected for an export: whatever is in the store, it is what the config calls for, each
secret in writing as it stands under its reference (`collect_calledFor`).
-/

set_option autoImplicit false

namespace Relocation

open Files (FileSystem)
open Program Store

/-- What a config calls for: the descriptor, and the secrets that it references. -/
def calledFor (m : Memory) (c : ClusterConfig) : List (Artifact × String) :=
  Artifact.all.filterMap fun artifact => (exportedText m c artifact).map (artifact, ·)

theorem mem_calledFor {m : Memory} {c : ClusterConfig} {artifact : Artifact} {text : String} :
    (artifact, text) ∈ calledFor m c ↔ exportedText m c artifact = some text := by
  have hall : artifact ∈ Artifact.all := by cases artifact <;> decide
  simp [calledFor, hall]

section Collecting

variable {m : Memory} {c : ClusterConfig} {s t : Memory × FileSystem}

private theorem secretText_stored {r : SecretReference} {text : String}
    (h : (secretText r).run (besideFiles Memory.answer) s = (.ok text, t)) :
    t = s ∧ (s.1.secrets.get? r.key).map (fun secret => secret.toValue.text) = some text := by
  obtain ⟨found, u, hget, h⟩ := run_bind_eq_ok h
  obtain rfl : s = u := congrArg Prod.snd hget
  obtain rfl : s.1.secrets.get? r.key = found := Except.ok.inj (congrArg Prod.fst hget)
  cases hsecret : s.1.secrets.get? r.key with
  | none => simp [hsecret] at h
  | some secret =>
    simp only [hsecret] at h
    obtain ⟨htext, hstate⟩ := Prod.mk.inj h
    exact ⟨hstate.symm, congrArg some (Except.ok.inj htext)⟩

private theorem secretTexts_stored {refs : List (Artifact × SecretReference)}
    {texts : List (Artifact × String)}
    (h : (secretTexts refs).run (besideFiles Memory.answer) s = (.ok texts, t)) :
    t = s ∧ (∀ ref ∈ refs, (s.1.secrets.get? ref.2.key).isSome) ∧
      texts = refs.filterMap fun ref =>
        (s.1.secrets.get? ref.2.key).map fun secret => (ref.1, secret.toValue.text) := by
  induction refs generalizing texts t with
  | nil =>
    obtain ⟨htexts, hstate⟩ := Prod.mk.inj h
    exact ⟨hstate.symm, List.forall_mem_nil _, (Except.ok.inj htexts).symm⟩
  | cons ref rest ih =>
    obtain ⟨artifact, r⟩ := ref
    obtain ⟨text, s1, hfirst, h⟩ := run_bind_eq_ok h
    obtain ⟨texts', s2, hrest, h⟩ := run_bind_eq_ok h
    obtain ⟨rfl, htext⟩ := secretText_stored hfirst
    obtain ⟨rfl, hstored, rfl⟩ := ih hrest
    obtain ⟨htexts, hstate⟩ := Prod.mk.inj h
    obtain ⟨secret, hsecret, rfl⟩ := Option.map_eq_some_iff.1 htext
    refine ⟨hstate.symm, List.forall_mem_cons.2 ⟨by rw [hsecret]; rfl, hstored⟩, ?_⟩
    rw [← Except.ok.inj htexts, List.filterMap_cons, hsecret]
    rfl

/-- What is collected is what the config calls for, and every secret that it references is there. -/
theorem collect_calledFor {artifacts : List (Artifact × String)}
    (h : (collect c).run (besideFiles Memory.answer) s = (.ok artifacts, t)) :
    t = s ∧ artifacts = calledFor s.1 c ∧ ∀ artifact r, c.spec.secretReference? artifact = some r →
      (s.1.secrets.get? r.key).isSome := by
  obtain ⟨d, s1, hdescriptor, h⟩ := run_bind_eq_ok h
  obtain ⟨hd, rfl⟩ := Prod.mk.inj hdescriptor
  obtain ⟨texts, s2, htexts, h⟩ := run_bind_eq_ok h
  obtain ⟨hsame, hstored, rfl⟩ := secretTexts_stored htexts
  obtain rfl := hsame.symm
  obtain ⟨hartifacts, hstate⟩ := Prod.mk.inj h
  have hreferences : c.spec.secretReferences =
      [.apiCert, .ingressCert, .pullSecret, .acmSecret].filterMap fun artifact =>
        (c.spec.secretReference? artifact).map (artifact, ·) := rfl
  have hdescribed : exportedText s.1 c .descriptor = some d.toValue.text :=
    exportedText_descriptor hd
  refine ⟨hstate.symm, ?_, fun _ _ href => hstored _ (mem_secretReferences.2 href)⟩
  rw [← Except.ok.inj hartifacts, calledFor, Artifact.all, List.filterMap_cons, hdescribed,
    hreferences, List.filterMap_filterMap]
  refine congrArg _ (List.filterMap_congr fun artifact hmem => ?_)
  have hartifact : artifact ≠ .descriptor := by
    rintro rfl
    exact absurd hmem (by decide)
  rw [exportedText_secret hartifact]
  cases c.spec.secretReference? artifact with
  | none => rfl
  | some r => cases hfound : s.1.secrets.get? r.key <;> simp [hfound]

end Collecting

end Relocation
