import Relocation.Proofs.Documents
import Relocation.Proofs.Patches

/-!
Patches of hosts on their two ways. A patch is merged into the document that the cluster keeps of a
host, or applied to the host itself, and both come to the same host; in the document, what a merge
patch is silent about stays (`at?_merge_of_silent`), and what it gives takes its place
(`at?_merge_of_gives`). The least patch that makes a host boot an image is empty exactly when the
host boots it already (`booting_eq_iff`), and the next one leaves nothing of it
(`booting_again`).
-/

set_option autoImplicit false

namespace Relocation

open Json

namespace Json.Value

/-- What stands in a value where a path of names leads to. -/
def at? : List String → Value → Option Value
  | [], v => some v
  | name :: rest, v => (valueOf name v.members).bind (at? rest)

/-- Whether a merge patch says nothing about what stands at a path, nor about what it is in. -/
def Silent : Value → List String → Prop
  | .object changes, name :: rest => ∀ change, valueOf name changes = some change →
      change.Silent rest
  | _, _ => False

variable {target patch v : Value} {path rest : List String} {name : String} {changes : Parts}

private theorem object_of_at? (h : at? (name :: rest) v ≠ none) : ∃ ms, v = .object ms := by
  cases v with
  | object ms => exact ⟨ms, rfl⟩
  | _ => exact absurd rfl h

private theorem Silent.object (h : patch.Silent path) :
    ∃ changes name rest, patch = .object changes ∧ path = name :: rest := by
  cases path with
  | nil => cases patch <;> cases h
  | cons name rest =>
    cases patch with
    | object changes => exact ⟨changes, name, rest, rfl, rfl⟩
    | _ => cases h

private theorem valueOf_merge_tidy (target : Value) (changes : Parts) (name : String) :
    valueOf name (target.merge (Value.object changes).tidy).members =
      match valueOf name changes with
      | none => valueOf name target.members
      | some change => if change.isNull then none
        else some (((valueOf name target.members).getD .null).merge change.tidy) := by
  obtain ⟨changes', htidy, hnames, hvalue⟩ := tidy_object changes
  rw [htidy, merge, members, valueOf_mergeMembers _ _ hnames, hvalue]
  cases valueOf name changes with
  | none => rfl
  | some change => simp only [Option.map_some, isNull_tidy]

/-- What a merge patch is silent about stays as it is. -/
theorem at?_merge_of_silent (h : patch.Silent path) :
    (target.merge patch.tidy).at? path = target.at? path := by
  induction path generalizing target patch with
  | nil =>
    obtain ⟨_, _, _, -, hpath⟩ := h.object
    cases hpath
  | cons name rest ih =>
    obtain ⟨changes, _, _, rfl, -⟩ := h.object
    rw [at?, at?, valueOf_merge_tidy]
    cases hchange : valueOf name changes with
    | none => rfl
    | some change =>
      have hsilent : change.Silent rest := h change hchange
      obtain ⟨below, name', rest', rfl, rfl⟩ := hsilent.object
      refine (ih hsilent).trans ?_
      cases valueOf name target.members <;> rfl

/-- What a merge patch gives under a path stands there afterwards, and what it gives as null is
gone. -/
theorem at?_merge_of_gives (h : patch.at? (name :: rest) = some v) (hv : ∀ ms, v ≠ .object ms) :
    (target.merge patch.tidy).at? (name :: rest) = if v.isNull then none else some v.tidy := by
  induction rest generalizing target patch name with
  | nil =>
    obtain ⟨changes, rfl⟩ := object_of_at? (h.symm ▸ Option.some_ne_none v)
    have hchange : valueOf name changes = some v := by
      simpa [at?, members, Option.bind_eq_some_iff] using h
    rw [at?, valueOf_merge_tidy, hchange]
    cases v with
    | object ms => exact absurd rfl (hv ms)
    | null => rfl
    | _ => simp [isNull, at?, tidy, merge]
  | cons name' rest ih =>
    obtain ⟨changes, rfl⟩ := object_of_at? (h.symm ▸ Option.some_ne_none v)
    obtain ⟨change, hchange, hbelow⟩ := Option.bind_eq_some_iff.1 h
    have hchange : valueOf name changes = some change := hchange
    obtain ⟨below, rfl⟩ := object_of_at? (hbelow.symm ▸ Option.some_ne_none v)
    rw [at?, valueOf_merge_tidy, hchange]
    exact ih hbelow

end Json.Value

namespace HostPatch

/-- The places in the document of a host that a patch may change. -/
def places : List (List String) :=
  [["spec", "online"], ["spec", "image"], ["metadata", "resourceVersion"]]

private def mergeDocument (p : HostPatch) (version : Option String) : Value :=
  .object (optionalMember "metadata"
      (fun v => .object (member "resourceVersion" (.string v))) version ++
    member "spec" (.object p.specPatch))

variable {p : HostPatch} {version : Option String} {path rest : List String} {name : String}
  {change : Value}

private theorem change_cases
    (h : valueOf name (p.mergeDocument version).members = some change) :
    (name = "spec" ∧ change = .object p.specPatch) ∨ name = "metadata" ∧
      ∃ v, version = some v ∧ change = .object (member "resourceVersion" (.string v)) := by
  rcases List.mem_append.1 (mem_of_valueOf h) with hmem | hmem
  · cases version with
    | none => cases hmem
    | some v =>
      obtain ⟨rfl, rfl⟩ := Prod.mk.inj (List.mem_singleton.1 hmem)
      exact .inr ⟨rfl, v, rfl, rfl⟩
  · obtain ⟨rfl, rfl⟩ := Prod.mk.inj (List.mem_singleton.1 hmem)
    exact .inl ⟨rfl, rfl⟩

private theorem specChange_cases (h : valueOf name p.specPatch = some change) :
    name = "online" ∨ name = "image" ∧ (p.image = .clear ∧ change = .null ∨
      ∃ image, p.image = .set image ∧ change = image.toValue) := by
  rcases List.mem_append.1 (mem_of_valueOf h) with hmem | hmem
  · refine .inr ?_
    cases himage : p.image with
    | keep => simp [himage] at hmem
    | clear =>
      rw [himage] at hmem
      obtain ⟨rfl, rfl⟩ := Prod.mk.inj (List.mem_singleton.1 hmem)
      exact ⟨rfl, .inl ⟨rfl, rfl⟩⟩
    | set image =>
      rw [himage] at hmem
      obtain ⟨rfl, rfl⟩ := Prod.mk.inj (List.mem_singleton.1 hmem)
      exact ⟨rfl, .inr ⟨image, rfl, rfl⟩⟩
  · cases honline : p.online with
    | none => simp [honline, optionalMember] at hmem
    | some b =>
      rw [honline] at hmem
      exact .inl (Prod.mk.inj (List.mem_singleton.1 hmem)).1

private theorem silent_elsewhere
    (h : ∀ place ∈ places, ¬place <+: path ∧ ¬path <+: place) :
    (p.mergeDocument version).Silent path := by
  cases path with
  | nil => exact absurd List.nil_prefix (h ["spec", "online"] (by simp [places])).2
  | cons name rest =>
    intro change hchange
    rcases change_cases hchange with ⟨rfl, rfl⟩ | ⟨rfl, v, rfl, rfl⟩
    · cases rest with
      | nil => exact absurd (by simp) (h ["spec", "online"] (by simp [places])).2
      | cons name rest =>
        intro change hchange
        rcases specChange_cases hchange with rfl | ⟨rfl, -⟩
        · exact absurd (by simp) (h ["spec", "online"] (by simp [places])).1
        · exact absurd (by simp) (h ["spec", "image"] (by simp [places])).1
    · cases rest with
      | nil => exact absurd (by simp) (h ["metadata", "resourceVersion"] (by simp [places])).2
      | cons name rest =>
        intro change hchange
        obtain rfl : "resourceVersion" = name := by
          by_contra hne
          simp [member, valueOf, hne] at hchange
        exact absurd (by simp) (h ["metadata", "resourceVersion"] (by simp [places])).1

private theorem silent_in_image {image : HostImage} (himage : p.image = .set image)
    (h : valueOf name image.toValue.members = none) :
    (p.mergeDocument version).Silent ("spec" :: "image" :: name :: rest) := by
  intro change hchange
  rcases change_cases hchange with ⟨-, rfl⟩ | ⟨hname, -⟩
  · intro change hchange
    rcases specChange_cases hchange with hname | ⟨-, ⟨hclear, -⟩ | ⟨image', hset, rfl⟩⟩
    · simp at hname
    · simp [himage] at hclear
    · obtain rfl : image = image' := by simpa [himage] using hset
      intro change hchange
      exact nomatch h.symm.trans hchange
  · simp at hname

private theorem at?_version (d : Value) :
    (d.merge (p.toMergePatch version)).at? ["metadata", "resourceVersion"] =
      (version.map .string).or (d.at? ["metadata", "resourceVersion"]) := by
  cases version with
  | none =>
    have hsilent : (p.mergeDocument none).Silent ["metadata", "resourceVersion"] := by
      intro change hchange
      rcases change_cases hchange with ⟨hname, -⟩ | ⟨-, v, hv, -⟩
      · simp at hname
      · cases hv
    exact Value.at?_merge_of_silent hsilent
  | some v =>
    have hgives : (p.mergeDocument (some v)).at? ["metadata", "resourceVersion"] =
        some (.string v) := rfl
    exact Value.at?_merge_of_gives hgives nofun

/-- The merge patch and the application of a patch agree. A document that decodes to a host, and
whose spec and image are objects (an image may also be null or absent), decodes after the merge to
the host after the patch, with the version that the patch gives; every member that is neither in nor
around a place of the patch keeps its value, and so does every member of an image that the image of
the patch does not carry. -/
theorem merged_as_applied (p : HostPatch) (version : Option String) {d : Value} {h : Host}
    (hdecode : Host.form.decode (.ofValue d) = .ok h)
    (hspec : ∃ ms, d.at? ["spec"] = some (.object ms))
    (himage : ∀ v, d.at? ["spec", "image"] = some v → v.isNull = true ∨ ∃ ms, v = .object ms) :
    Host.form.decode (.ofValue (d.merge (p.toMergePatch version))) =
        .ok ⟨{ h.metadata with resourceVersion := version.or h.metadata.resourceVersion },
          p.applyTo h.spec⟩ ∧
      (∀ path, (∀ place ∈ places, ¬place <+: path ∧ ¬path <+: place) →
        (d.merge (p.toMergePatch version)).at? path = d.at? path) ∧
      (d.merge (p.toMergePatch version)).at? ["metadata", "resourceVersion"] =
        (version.map .string).or (d.at? ["metadata", "resourceVersion"]) ∧
      ∀ image, p.image = .set image → ∀ name rest, valueOf name image.toValue.members = none →
        (d.merge (p.toMergePatch version)).at? ("spec" :: "image" :: name :: rest) =
          d.at? ("spec" :: "image" :: name :: rest) := by
  refine ⟨?_, fun path hpath => Value.at?_merge_of_silent (silent_elsewhere hpath),
    at?_version d, fun image hset name rest hname =>
      Value.at?_merge_of_silent (silent_in_image hset hname)⟩
  obtain ⟨spec, hspec⟩ := hspec
  obtain ⟨ms, rfl⟩ := Value.object_of_at? (hspec.symm ▸ Option.some_ne_none _)
  have hspec : valueOf "spec" ms = some (.object spec) := by
    simpa [Value.at?, Value.members, Option.bind_eq_some_iff] using hspec
  refine Host.decode_merge_toMergePatch p version hdecode ⟨spec, hspec, fun v hv => himage v ?_⟩
  rw [Value.at?, Value.members, hspec]
  simp [Value.at?, Value.members, hv]

private def rackedHost : Value := .object [
  ("kind", .string "BareMetalHost"),
  ("metadata", .object [("name", .string "metal"), ("namespace", .string "edge"),
    ("resourceVersion", .string "7"), ("rack", .string "a")]),
  ("spec", .object [("bmc", .object [("address", .string "redfish://10.0.0.1")]),
    ("image", .object [("checksum", .string "c0ffee"), ("diskFormat", .null),
      ("format", .string "raw"), ("url", .string "http://images/old.iso")])]),
  ("status", .object [("poweredOn", .bool true)])]

/-- The image is merged into the one of the host, and what is not known stays at every level. -/
theorem merged_as_applied_racked :
    let after := rackedHost.merge
      (toMergePatch { online := some true, image := .set (.liveIso "http://images/new.iso") }
        (some "8"))
    Host.form.decode (.ofValue after) = .ok {
        metadata := { name := some "metal", space := some "edge", resourceVersion := some "8" }
        spec := {
          online := true
          image := some {
            url := "http://images/new.iso"
            checksum := some "c0ffee"
            diskFormat := some "live-iso" } } } ∧
      after.at? ["metadata", "rack"] = some (.string "a") ∧
      after.at? ["metadata", "resourceVersion"] = some (.string "8") ∧
      after.at? ["spec", "image", "format"] = some (.string "raw") := by
  have hdecode : Host.form.decode (.ofValue rackedHost) = .ok {
      metadata := { name := some "metal", space := some "edge", resourceVersion := some "7" }
      spec := { image := some { url := "http://images/old.iso", checksum := some "c0ffee" } } } :=
    rfl
  have himage (v : Value) (hv : rackedHost.at? ["spec", "image"] = some v) :
      v.isNull = true ∨ ∃ ms, v = .object ms := .inr ⟨_, (Option.some.inj hv).symm⟩
  obtain ⟨hmerged, hkept, hversion, hbeside⟩ := merged_as_applied
    { online := some true, image := .set (.liveIso "http://images/new.iso") } (some "8") hdecode
    ⟨_, rfl⟩ himage
  exact ⟨hmerged, hkept ["metadata", "rack"] (by simp [places]), hversion,
    hbeside _ rfl "format" [] rfl⟩

end HostPatch

/-- A host after the least patch that makes it boot the live image at an address. -/
def Host.movedTo (h : Host) (url : String) : Host :=
  { h with spec := (HostPatch.bootFrom h.spec url).applyTo h.spec }

section Moves

variable {s : HostSpec} {url url' : String}

theorem booting_eq_iff : s.booting url = s ↔ (HostPatch.bootFrom s url).isEmpty = true := by
  refine ⟨fun h => ?_, booting_of_isEmpty⟩
  rw [← h]
  exact isEmpty_bootFrom_booting s url

theorem booting_again (s : HostSpec) (url url' : String) :
    (s.booting url).booting url' = s.booting url' := by
  simp [HostSpec.booting]

end Moves

/-- The least patch is exact. A host that it was applied to is online and boots the live image at
the address, with everything else as it was; then nothing is left to patch, and before there was
nothing exactly when the host boots the image already; and where the host was moved to before makes
no difference. -/
theorem moved_exactly (h : Host) (u v : String) :
    (h.movedTo u).spec.online = true ∧
      (∃ image, (h.movedTo u).spec.image = some image ∧ image.url = u ∧
        image.diskFormat = some liveIsoFormat ∧
        image.checksum = h.spec.image.bind HostImage.checksum ∧
        image.checksumType = h.spec.image.bind HostImage.checksumType) ∧
      (h.movedTo u).spec.bootMacAddress = h.spec.bootMacAddress ∧
      (h.movedTo u).metadata = h.metadata ∧
      (HostPatch.bootFrom (h.movedTo u).spec u).isEmpty = true ∧
      ((HostPatch.bootFrom h.spec u).isEmpty = true ↔ h.movedTo u = h) ∧
      (h.movedTo u).movedTo v = h.movedTo v := by
  simp only [Host.movedTo, applyTo_bootFrom, booting_again]
  refine ⟨rfl, ⟨_, rfl, rfl, rfl, ?_, ?_⟩, rfl, trivial, isEmpty_bootFrom_booting h.spec u, ?_,
    trivial⟩
  · cases h.spec.image <;> rfl
  · cases h.spec.image <;> rfl
  · rw [← booting_eq_iff]
    obtain ⟨metadata, spec⟩ := h
    simp

end Relocation
