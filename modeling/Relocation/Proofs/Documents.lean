import Relocation.Proofs.Encodings
import Relocation.Proofs.Json.MergePatch
import Relocation.Store.Api

/-!
Objects of the cluster as documents, and what patches make of them. A patch of the metadata of a
document sets finalizers and version of the object and nothing else (`decode_merge_metadata`), and a
patch of a host does to a document what it does to the host (`Host.decode_merge_toMergePatch`).
-/

set_option autoImplicit false

namespace Relocation

open Json

private theorem except_bind_eq_ok_iff {ε α β : Type} {x : Except ε α} {f : α → Except ε β} {b : β} :
    (x >>= f) = .ok b ↔ ∃ a, x = .ok a ∧ f a = .ok b := by
  cases x <;> simp [bind, Except.bind]

section Checks

variable {α β : Type} {form : RecordForm α} {before changes ms : Parts} {x y : α}

private theorem exists_of_take_required {name : String} {d : Decoder α}
    (h : (Field.required name d).take (Source.ofMembers ms) = .ok x) :
    ∃ v, valueOf name ms = some v ∧ d (.ofValue v) = .ok x := by
  rw [take_ofMembers] at h
  cases hv : valueOf (Field.required name d).name ms with
  | none =>
    rw [hv] at h
    cases h
  | some v =>
    rw [hv] at h
    exact ⟨v, hv, h⟩

private theorem optional_of_decode {s : Source} (h : form.decode s = .ok x) :
    Decoder.optional form.decode s = .ok (some x) := by
  cases s with
  | null => cases h
  | _ => simp [Decoder.optional, h, Except.map]

theorem take_optional_cases {name : String} {decoder : Decoder α} {o : Option α}
    (h : (Field.optional name decoder).take (Source.ofMembers ms) = .ok o) :
    ((valueOf name ms).getD .null = .null ∧ o = none) ∨
      ∃ v a, valueOf name ms = some v ∧ v.isNull = false ∧ decoder (.ofValue v) = .ok a ∧
        o = some a := by
  rw [take_ofMembers] at h
  cases hv : valueOf name ms with
  | none =>
    rw [show valueOf (Field.optional name decoder).name ms = none from hv] at h
    exact .inl ⟨rfl, (Except.ok.inj h).symm⟩
  | some v =>
    rw [show valueOf (Field.optional name decoder).name ms = some v from hv] at h
    cases hnull : v.isNull with
    | true =>
      cases v with
      | null => exact .inl ⟨rfl, (Except.ok.inj h).symm⟩
      | _ => cases hnull
    | false =>
      have hpresent : decoder.optional (.ofValue v) = (decoder (.ofValue v)).map some := by
        cases v <;> first | rfl | cases hnull
      have hdecode : (decoder (.ofValue v)).map some = .ok o := hpresent.symm.trans h
      cases ha : decoder (.ofValue v) with
      | error e => simp [ha, Except.map] at hdecode
      | ok a => exact .inr ⟨v, a, rfl, hnull, ha, by simpa [ha, Except.map, eq_comm] using hdecode⟩

/-- An object that a record accepts is still accepted after changes if the values that it has then
fit. -/
theorem decode_merge (hbefore : form.Accepts [] before)
    (hchanges : (changes.map Prod.fst).Nodup)
    (hchecks : ∀ k ∈ form.known, ∀ v,
      valueOf k.name (Value.mergeMembers before changes) = some v → k.check (.ofValue v) = .ok ())
    (hbuild : form.build (Source.ofMembers (Value.mergeMembers before changes)) = .ok y) :
    form.decode (.ofValue ((Value.object before).merge (.object changes))) = .ok y := by
  rw [Value.merge, RecordForm.decode_object_eq_ok_iff]
  refine ⟨⟨fun name k hk v hv => ?_, fun hstyle name k hk => ?_,
    fun _ name k hk hseen => ?_⟩, hbuild⟩
  · have hname : k.name = name := by simpa using List.find?_some hk
    rcases mem_mergeMembers hchanges hv with ⟨-, hmem⟩ | ⟨change, hchange, hnull, rfl⟩
    · exact hbefore.check name k hk v hmem
    · refine hchecks k (List.mem_of_find?_eq_some hk) _ ?_
      rw [hname, valueOf_mergeMembers _ _ hchanges, hchange]
      simp [hnull, Value.members]
  · exact timesOf_mergeMembers (hbefore.once hstyle name k hk)
  · cases hseen

end Checks

namespace ObjectMeta

/-- What every part of metadata is taken from. -/
structure TakenFrom (ms : Members) (m : ObjectMeta) : Prop where
  annotations : (Field.optional "annotations" (Decoder.table Decoder.string)).take ms =
    .ok m.annotations
  creationTimestamp : (Field.optional "creationTimestamp" Decoder.timestamp).take ms =
    .ok m.creationTimestamp
  deletionGracePeriodSeconds :
    (Field.optional "deletionGracePeriodSeconds" Decoder.int64).take ms =
      .ok m.deletionGracePeriodSeconds
  deletionTimestamp : (Field.optional "deletionTimestamp" Decoder.timestamp).take ms =
    .ok m.deletionTimestamp
  finalizers : (Field.optional "finalizers" (Decoder.list Decoder.string)).take ms =
    .ok m.finalizers
  generateName : (Field.optional "generateName" Decoder.string).take ms = .ok m.generateName
  generation : (Field.optional "generation" Decoder.int64).take ms = .ok m.generation
  labels : (Field.optional "labels" (Decoder.table Decoder.string)).take ms = .ok m.labels
  managedFields :
    (Field.optional "managedFields" (Decoder.list ManagedFields.form.decode)).take ms =
      .ok m.managedFields
  name : (Field.optional "name" Decoder.string).take ms = .ok m.name
  space : (Field.optional "namespace" Decoder.string).take ms = .ok m.space
  ownerReferences :
    (Field.optional "ownerReferences" (Decoder.list OwnerReference.form.decode)).take ms =
      .ok m.ownerReferences
  resourceVersion : (Field.optional "resourceVersion" Decoder.string).take ms =
    .ok m.resourceVersion
  selfLink : (Field.optional "selfLink" Decoder.string).take ms = .ok m.selfLink
  uid : (Field.optional "uid" Decoder.string).take ms = .ok m.uid

theorem build_eq_ok_iff {ms : Members} {m : ObjectMeta} :
    form.build ms = .ok m ↔ TakenFrom ms m := by
  simp only [form, except_bind_eq_ok_iff]
  constructor
  · rintro ⟨_, h1, _, h2, _, h3, _, h4, _, h5, _, h6, _, h7, _, h8, _, h9, _, h10, _, h11, _, h12,
      _, h13, _, h14, _, h15, heq⟩
    obtain rfl := Except.ok.inj heq
    exact ⟨h1, h2, h3, h4, h5, h6, h7, h8, h9, h10, h11, h12, h13, h14, h15⟩
  · rintro ⟨h1, h2, h3, h4, h5, h6, h7, h8, h9, h10, h11, h12, h13, h14, h15⟩
    exact ⟨_, h1, _, h2, _, h3, _, h4, _, h5, _, h6, _, h7, _, h8, _, h9, _, h10, _, h11, _, h12,
      _, h13, _, h14, _, h15, rfl⟩

/-- Metadata with other finalizers and another version, as far as they are given. -/
def patched (m : ObjectMeta) (finalizers : Option (List String)) (version : Option String) :
    ObjectMeta :=
  { m with
    finalizers := finalizers.or m.finalizers
    resourceVersion := version.or m.resourceVersion }

/-- The changes that set finalizers and version, as far as they are given. -/
def changes (finalizers : Option (List String)) (version : Option String) : Parts :=
  optionalMember "finalizers" (listValue .string) finalizers ++
    optionalMember "resourceVersion" .string version

section Changes

variable {finalizers : Option (List String)} {version : Option String} {ms : Parts} {m : ObjectMeta}
  {name : String}

theorem names_changes : ((changes finalizers version).map Prod.fst).Nodup := by
  cases finalizers <;> cases version <;> simp [changes, optionalMember]

theorem valueOf_finalizers (ms : Parts) :
    valueOf "finalizers" (Value.mergeMembers ms (changes finalizers version)) =
      (finalizers.map (listValue .string)).or (valueOf "finalizers" ms) := by
  rw [valueOf_mergeMembers _ _ names_changes]
  cases finalizers <;> cases version <;> rfl

theorem valueOf_resourceVersion (ms : Parts) :
    valueOf "resourceVersion" (Value.mergeMembers ms (changes finalizers version)) =
      (version.map .string).or (valueOf "resourceVersion" ms) := by
  rw [valueOf_mergeMembers _ _ names_changes]
  cases finalizers <;> cases version <;> rfl

theorem valueOf_other (ms : Parts) (hfinalizers : name ≠ "finalizers")
    (hversion : name ≠ "resourceVersion") :
    valueOf name (Value.mergeMembers ms (changes finalizers version)) = valueOf name ms := by
  have hnone : valueOf name (changes finalizers version) = none := by
    cases finalizers <;> cases version <;>
      simp [changes, optionalMember, valueOf, hfinalizers.symm, hversion.symm]
  rw [valueOf_mergeMembers _ _ names_changes, hnone]

theorem fits_changes (finalizers : Option (List String)) (version : Option String) (levels : Nat) :
    (Value.object (changes finalizers version)).Fits (levels + 2) := by
  refine .object (List.forall_mem_append.2 ⟨fits_optionalMember fun list => .array fun v hv => ?_,
    fits_optionalMember fun v => .string v⟩)
  obtain ⟨s, -, rfl⟩ := List.mem_map.1 hv
  exact .string s

private theorem items_string (list : List String) :
    Decoder.items Decoder.string (Source.ofItems (list.map Value.string)) = .ok list := by
  induction list with
  | nil => rfl
  | cons s list ih =>
    rw [List.map_cons, Source.ofItems, Decoder.items, ih]
    rfl

private theorem decode_list_string (list : List String) :
    (Decoder.list Decoder.string).optional (.ofValue (listValue .string list)) =
      .ok (some list) := by
  simp only [listValue, Source.ofValue, Decoder.optional, Decoder.list, items_string]
  rfl

theorem TakenFrom.patched (h : TakenFrom (Source.ofMembers ms) m) :
    TakenFrom (Source.ofMembers (Value.mergeMembers ms (changes finalizers version)))
      (m.patched finalizers version) := by
  have hsame {α : Type} {f : Json.Field α} (hfinalizers : f.name ≠ "finalizers")
      (hversion : f.name ≠ "resourceVersion") :
      f.take (Source.ofMembers (Value.mergeMembers ms (changes finalizers version))) =
        f.take (Source.ofMembers ms) :=
    take_congr (valueOf_other ms hfinalizers hversion)
  exact {
    annotations := (hsame (by decide) (by decide)).trans h.annotations
    creationTimestamp := (hsame (by decide) (by decide)).trans h.creationTimestamp
    deletionGracePeriodSeconds :=
      (hsame (by decide) (by decide)).trans h.deletionGracePeriodSeconds
    deletionTimestamp := (hsame (by decide) (by decide)).trans h.deletionTimestamp
    finalizers := by
      cases finalizers with
      | none => exact (take_congr (valueOf_finalizers ms)).trans h.finalizers
      | some list =>
        exact (take_of_valueOf (v := listValue .string list) (valueOf_finalizers ms)).trans
          (decode_list_string list)
    generateName := (hsame (by decide) (by decide)).trans h.generateName
    generation := (hsame (by decide) (by decide)).trans h.generation
    labels := (hsame (by decide) (by decide)).trans h.labels
    managedFields := (hsame (by decide) (by decide)).trans h.managedFields
    name := (hsame (by decide) (by decide)).trans h.name
    space := (hsame (by decide) (by decide)).trans h.space
    ownerReferences := (hsame (by decide) (by decide)).trans h.ownerReferences
    resourceVersion := by
      cases version with
      | none => exact (take_congr (valueOf_resourceVersion ms)).trans h.resourceVersion
      | some version =>
        exact take_of_valueOf (v := .string version) (valueOf_resourceVersion ms)
    selfLink := (hsame (by decide) (by decide)).trans h.selfLink
    uid := (hsame (by decide) (by decide)).trans h.uid }

theorem TakenFrom.checks (h : TakenFrom (Source.ofMembers ms) m) :
    ∀ k ∈ form.known, ∀ v, valueOf k.name ms = some v → k.check (.ofValue v) = .ok () := by
  simp only [form, List.forall_mem_cons]
  exact ⟨fun _ => check_of_take h.annotations, fun _ => check_of_take h.creationTimestamp,
    fun _ => check_of_take h.deletionGracePeriodSeconds,
    fun _ => check_of_take h.deletionTimestamp, fun _ => check_of_take h.finalizers,
    fun _ => check_of_take h.generateName, fun _ => check_of_take h.generation,
    fun _ => check_of_take h.labels, fun _ => check_of_take h.managedFields,
    fun _ => check_of_take h.name, fun _ => check_of_take h.space,
    fun _ => check_of_take h.ownerReferences, fun _ => check_of_take h.resourceVersion,
    fun _ => check_of_take h.selfLink, fun _ => check_of_take h.uid, List.forall_mem_nil _⟩

theorem eq_object_of_decode {v : Value} (h : form.decode (.ofValue v) = .ok m) :
    ∃ ms, v = .object ms ∧ TakenFrom (Source.ofMembers ms) m := by
  cases v with
  | object ms =>
    exact ⟨ms, rfl, build_eq_ok_iff.1 (RecordForm.decode_object_eq_ok_iff.1 h).2⟩
  | _ => cases h

theorem decode_merge_changes {v : Value} (h : form.decode (.ofValue v) = .ok m)
    (finalizers : Option (List String)) (version : Option String) :
    form.decode (.ofValue (v.merge (.object (changes finalizers version)))) =
      .ok (m.patched finalizers version) := by
  obtain ⟨ms, rfl, htaken⟩ := eq_object_of_decode h
  have hafter : TakenFrom (Source.ofMembers (Value.mergeMembers ms (changes finalizers version)))
      (m.patched finalizers version) := htaken.patched
  exact decode_merge (RecordForm.decode_object_eq_ok_iff.1 h).1 names_changes hafter.checks
    (build_eq_ok_iff.2 hafter)

end Changes

end ObjectMeta

/-- The patch that sets finalizers and version of an object, as far as they are given. -/
def metadataPatch (finalizers : Option (List String)) (version : Option String) : Value :=
  .object [("metadata", .object (ObjectMeta.changes finalizers version))]

section Metadata

variable {finalizers : Option (List String)} {version : Option String} {ms : Parts}

theorem names_metadataPatch (finalizers : Option (List String)) (version : Option String) :
    ([("metadata", .object (ObjectMeta.changes finalizers version))].map
      (Prod.fst : String × Value → String)).Nodup := by
  simp

theorem fits_metadataPatch (finalizers : Option (List String)) (version : Option String)
    (levels : Nat) : (metadataPatch finalizers version).Fits (levels + 3) := by
  refine .object fun e he => ?_
  obtain rfl := List.mem_singleton.1 he
  exact ObjectMeta.fits_changes finalizers version levels

private theorem take_metadata {ms' : Parts} {m : ObjectMeta}
    (h : (Field.required "metadata" ObjectMeta.form.decode).take (Source.ofMembers ms) = .ok m)
    (hchanged : ∀ v, valueOf "metadata" ms = some v →
      valueOf "metadata" ms' = some (v.merge (.object (ObjectMeta.changes finalizers version)))) :
    (Field.required "metadata" ObjectMeta.form.decode).take (Source.ofMembers ms') =
      .ok (m.patched finalizers version) := by
  obtain ⟨v, hv, hdecode⟩ := exists_of_take_required h
  refine Eq.trans (take_of_valueOf (v := v.merge _) (hchanged v hv)) ?_
  exact ObjectMeta.decode_merge_changes hdecode finalizers version

end Metadata

namespace ClusterConfig

private theorem build_eq_ok_iff {ms : Members} {c : ClusterConfig} : form.build ms = .ok c ↔
    (Field.required "metadata" ObjectMeta.form.decode).take ms = .ok c.metadata ∧
      (Field.required "spec" ClusterConfigSpec.form.decode).take ms = .ok c.spec ∧
      (Field.optional "status" ClusterConfigStatus.form.decode).take ms = .ok c.status := by
  simp only [form, except_bind_eq_ok_iff]
  constructor
  · rintro ⟨_, h1, _, h2, _, h3, heq⟩
    obtain rfl := Except.ok.inj heq
    exact ⟨h1, h2, h3⟩
  · rintro ⟨h1, h2, h3⟩
    exact ⟨_, h1, _, h2, _, h3, rfl⟩

theorem metadata_of_decode {ms : Parts} {c : ClusterConfig}
    (h : form.decode (.ofValue (.object ms)) = .ok c) :
    ∃ members, valueOf "metadata" ms = some (.object members) ∧
      ObjectMeta.TakenFrom (Source.ofMembers members) c.metadata := by
  obtain ⟨v, hv, hdecode⟩ := exists_of_take_required
    (build_eq_ok_iff.1 (RecordForm.decode_object_eq_ok_iff.1 h).2).1
  obtain ⟨members, rfl, htaken⟩ := ObjectMeta.eq_object_of_decode hdecode
  exact ⟨members, hv, htaken⟩

/-- A patch of the metadata of a document sets finalizers and version of the config. -/
theorem decode_merge_metadata {ms : Parts} {c : ClusterConfig}
    (h : form.decode (.ofValue (.object ms)) = .ok c) (finalizers : Option (List String))
    (version : Option String) :
    form.decode (.ofValue ((Value.object ms).merge (metadataPatch finalizers version))) =
      .ok { c with metadata := c.metadata.patched finalizers version } := by
  obtain ⟨haccepts, hbuild⟩ := RecordForm.decode_object_eq_ok_iff.1 h
  obtain ⟨hmetadata, hspec, hstatus⟩ := build_eq_ok_iff.1 hbuild
  have hnames := names_metadataPatch finalizers version
  have hvalue (name : String) := valueOf_mergeMembers name ms hnames
  have hmetadata' := take_metadata hmetadata fun v hv => by
    rw [hvalue "metadata", hv]
    rfl
  have hspec' := (take_congr (hvalue "spec")).trans hspec
  have hstatus' := (take_congr (hvalue "status")).trans hstatus
  refine decode_merge haccepts hnames ?_
    (build_eq_ok_iff.2 ⟨hmetadata', hspec', hstatus'⟩)
  simp only [form, List.forall_mem_cons]
  exact ⟨fun _ => check_of_take hmetadata', fun _ => check_of_take hspec',
    fun _ => check_of_take hstatus', List.forall_mem_nil _⟩

end ClusterConfig

namespace HostImage

variable {before : Parts} {current image : HostImage}

private theorem build_eq_ok_iff {ms : Members} {i : HostImage} : form.build ms = .ok i ↔
    (Field.required "url" Decoder.string).take ms = .ok i.url ∧
      (Field.optional "checksum" Decoder.string).take ms = .ok i.checksum ∧
      (Field.optional "checksumType" Decoder.string).take ms = .ok i.checksumType ∧
      (Field.optional "diskFormat" Decoder.string).take ms = .ok i.diskFormat := by
  simp only [form, except_bind_eq_ok_iff]
  constructor
  · rintro ⟨_, h1, _, h2, _, h3, _, h4, heq⟩
    obtain rfl := Except.ok.inj heq
    exact ⟨h1, h2, h3, h4⟩
  · rintro ⟨h1, h2, h3, h4⟩
    exact ⟨_, h1, _, h2, _, h3, _, h4, rfl⟩

/-- What an image has beside its address, as far as members say. -/
structure RestFrom (ms : Members) (i : HostImage) : Prop where
  checksum : (Field.optional "checksum" Decoder.string).take ms = .ok i.checksum
  checksumType : (Field.optional "checksumType" Decoder.string).take ms = .ok i.checksumType
  diskFormat : (Field.optional "diskFormat" Decoder.string).take ms = .ok i.diskFormat

private theorem take_optional_string {name : String} {ms ms' : Parts} {old new : Option String}
    (h : (Field.optional name Decoder.string).take (Source.ofMembers ms) = .ok old)
    (hvalue : valueOf name ms' = (new.map Value.string).or (valueOf name ms)) :
    (Field.optional name Decoder.string).take (Source.ofMembers ms') = .ok (new.or old) := by
  cases new with
  | none => exact (take_congr hvalue).trans h
  | some s => exact take_of_valueOf (v := .string s) hvalue

def parts (i : HostImage) : Parts :=
  member "url" (.string i.url) ++
    optionalMember "checksum" .string i.checksum ++
    optionalMember "checksumType" .string i.checksumType ++
    optionalMember "diskFormat" .string i.diskFormat

private theorem valueOf_parts (i : HostImage) :
    valueOf "url" i.parts = some (.string i.url) ∧
      valueOf "checksum" i.parts = i.checksum.map .string ∧
      valueOf "checksumType" i.parts = i.checksumType.map .string ∧
      valueOf "diskFormat" i.parts = i.diskFormat.map .string := by
  obtain ⟨url, checksum, checksumType, diskFormat⟩ := i
  cases checksum <;> cases checksumType <;> cases diskFormat <;> exact ⟨rfl, rfl, rfl, rfl⟩

theorem decode_merge_toValue (haccepts : form.Accepts [] before)
    (hbefore : RestFrom (Source.ofMembers before) current) :
    form.decode (.ofValue ((Value.object before).merge image.toValue.tidy)) =
      .ok (HostPatch.mergeImage current image) := by
  obtain ⟨changes, htidy, hnames, hvalue⟩ := tidy_object image.parts
  obtain ⟨hpartsUrl, hpartsChecksum, hpartsType, hpartsFormat⟩ := valueOf_parts image
  have hafter {name : String} {o : Option String} (h : valueOf name image.parts = o.map .string) :
      valueOf name (Value.mergeMembers before changes) =
        (o.map Value.string).or (valueOf name before) := by
    rw [valueOf_mergeMembers _ _ hnames, hvalue, h]
    cases o <;> rfl
  have hurl : (Field.required "url" Decoder.string).take
      (Source.ofMembers (Value.mergeMembers before changes)) = .ok image.url :=
    take_of_valueOf (v := .string image.url) (hafter (o := some image.url) hpartsUrl)
  have hchecksum := take_optional_string hbefore.checksum (hafter hpartsChecksum)
  have htype := take_optional_string hbefore.checksumType (hafter hpartsType)
  have hformat := take_optional_string hbefore.diskFormat (hafter hpartsFormat)
  rw [show image.toValue.tidy = .object changes from htidy]
  refine decode_merge haccepts hnames ?_ (build_eq_ok_iff.2 ⟨hurl, hchecksum, htype, hformat⟩)
  simp only [form, List.forall_mem_cons]
  exact ⟨fun _ => check_of_take hurl, fun _ => check_of_take hchecksum,
    fun _ => check_of_take htype, fun _ => check_of_take hformat, List.forall_mem_nil _⟩

end HostImage

namespace HostSpec

variable {before : Parts} {s : HostSpec} {p : HostPatch}

private theorem build_eq_ok_iff {ms : Members} {s : HostSpec} : form.build ms = .ok s ↔
    (Field.defaulted "online" Decoder.bool false).take ms = .ok s.online ∧
      (Field.optional "image" HostImage.form.decode).take ms = .ok s.image ∧
      (Field.optional "bootMACAddress" Decoder.string).take ms = .ok s.bootMacAddress := by
  simp only [form, except_bind_eq_ok_iff]
  constructor
  · rintro ⟨_, h1, _, h2, _, h3, heq⟩
    obtain rfl := Except.ok.inj heq
    exact ⟨h1, h2, h3⟩
  · rintro ⟨h1, h2, h3⟩
    exact ⟨_, h1, _, h2, _, h3, rfl⟩

/-- Whether the image among the members of a spec is one that can be merged into: an object, or null
or absent. -/
def ImageOpen (ms : Parts) : Prop :=
  ∀ v, valueOf "image" ms = some v → v.isNull = true ∨ ∃ members, v = .object members

private theorem valueOf_specPatch (p : HostPatch) :
    valueOf "online" p.specPatch = p.online.map .bool ∧
      valueOf "bootMACAddress" p.specPatch = none ∧
      valueOf "image" p.specPatch = match p.image with
        | .keep => none
        | .set image => some image.toValue
        | .clear => some .null := by
  obtain ⟨online, image⟩ := p
  cases online <;> cases image <;> exact ⟨rfl, rfl, rfl⟩

private theorem decode_merged_image (image : HostImage)
    (h : (Field.optional "image" HostImage.form.decode).take (Source.ofMembers before) =
      .ok s.image)
    (hopen : ImageOpen before) :
    HostImage.form.decode
        (.ofValue (((valueOf "image" before).getD .null).merge image.toValue.tidy)) =
      .ok (HostPatch.mergeImage (s.image.getD default) image) := by
  have hnone : HostImage.form.decode (.ofValue (Value.null.merge image.toValue.tidy)) =
      .ok (HostPatch.mergeImage default image) := by
    have hempty : Value.null.merge image.toValue.tidy =
        (Value.object []).merge image.toValue.tidy := by
      cases image.toValue.tidy <;> rfl
    rw [hempty]
    exact HostImage.decode_merge_toValue (RecordForm.visit_ofMembers_eq_ok_iff.1 rfl)
      ⟨rfl, rfl, rfl⟩
  rcases take_optional_cases h with ⟨hnull, himage⟩ | ⟨v, current, hv, hnull, hcurrent, himage⟩
  · rw [hnull, himage]
    exact hnone
  · rcases hopen v hv with hnull' | ⟨members, rfl⟩
    · rw [hnull] at hnull'
      cases hnull'
    · obtain ⟨haccepts, hbuild⟩ := RecordForm.decode_object_eq_ok_iff.1 hcurrent
      obtain ⟨-, hrest⟩ := HostImage.build_eq_ok_iff.1 hbuild
      rw [hv, himage]
      exact HostImage.decode_merge_toValue haccepts ⟨hrest.1, hrest.2.1, hrest.2.2⟩

private def patchedImage (change : ImageChange) (before : Option Value) : Option Value :=
  match change with
  | .keep => before
  | .set image => some ((before.getD .null).merge image.toValue.tidy)
  | .clear => none

private theorem tidy_specPatch (p : HostPatch) :
    ∃ changes, (Value.object p.specPatch).tidy = .object changes ∧ (changes.map Prod.fst).Nodup ∧
      ∀ before,
        valueOf "online" (Value.mergeMembers before changes) =
            (p.online.map .bool).or (valueOf "online" before) ∧
          valueOf "bootMACAddress" (Value.mergeMembers before changes) =
            valueOf "bootMACAddress" before ∧
          valueOf "image" (Value.mergeMembers before changes) =
            patchedImage p.image (valueOf "image" before) := by
  obtain ⟨changes, htidy, hnames, hvalue⟩ := tidy_object p.specPatch
  obtain ⟨honline, hmac, himage⟩ := valueOf_specPatch p
  refine ⟨changes, htidy, hnames, fun before => ⟨?_, ?_, ?_⟩⟩
  · rw [valueOf_mergeMembers _ _ hnames, hvalue, honline]
    cases p.online <;> rfl
  · rw [valueOf_mergeMembers _ _ hnames, hvalue, hmac]
    rfl
  · rw [valueOf_mergeMembers _ _ hnames, hvalue, himage]
    cases p.image with
    | keep => rfl
    | set image =>
      obtain ⟨_, hobject, -⟩ := tidy_object image.parts
      have hobject : image.toValue.tidy = .object _ := hobject
      simp [patchedImage, hobject, Value.isNull]
    | clear => rfl

private theorem take_patched_online {after : Parts}
    (h : (Field.defaulted "online" Decoder.bool false).take (Source.ofMembers before) =
      .ok s.online)
    (hafter : valueOf "online" after = (p.online.map .bool).or (valueOf "online" before)) :
    (Field.defaulted "online" Decoder.bool false).take (Source.ofMembers after) =
      .ok (p.applyTo s).online := by
  cases hchange : p.online with
  | none =>
    rw [hchange] at hafter
    simpa [HostPatch.applyTo, hchange] using (take_congr hafter).trans h
  | some b =>
    rw [hchange] at hafter
    rw [show (p.applyTo s).online = b by simp [HostPatch.applyTo, hchange]]
    exact take_of_valueOf (v := .bool b) hafter

private theorem take_patched_image {after : Parts}
    (h : (Field.optional "image" HostImage.form.decode).take (Source.ofMembers before) =
      .ok s.image)
    (hopen : ImageOpen before)
    (hafter : valueOf "image" after = patchedImage p.image (valueOf "image" before)) :
    (Field.optional "image" HostImage.form.decode).take (Source.ofMembers after) =
      .ok (p.applyTo s).image := by
  cases hchange : p.image with
  | keep =>
    rw [hchange] at hafter
    simpa [HostPatch.applyTo, hchange] using (take_congr hafter).trans h
  | set image =>
    have hmerged := decode_merged_image image h hopen
    rw [hchange] at hafter
    simpa [HostPatch.applyTo, hchange] using
      (take_of_valueOf hafter).trans (optional_of_decode hmerged)
  | clear =>
    rw [hchange] at hafter
    simpa [HostPatch.applyTo, hchange] using take_of_absent hafter rfl

/-- A patch of a spec does to its document what it does to the spec. -/
theorem decode_merge_specPatch (h : form.decode (.ofValue (.object before)) = .ok s)
    (hopen : ImageOpen before) :
    form.decode (.ofValue ((Value.object before).merge (Value.object p.specPatch).tidy)) =
      .ok (p.applyTo s) := by
  obtain ⟨changes, htidy, hnames, hafter⟩ := tidy_specPatch p
  obtain ⟨hafterOnline, hafterMac, hafterImage⟩ := hafter before
  obtain ⟨haccepts, hbuild⟩ := RecordForm.decode_object_eq_ok_iff.1 h
  obtain ⟨honline, himage, hmac⟩ := build_eq_ok_iff.1 hbuild
  have honline := take_patched_online honline hafterOnline
  have himage := take_patched_image himage hopen hafterImage
  have hmac : (Field.optional "bootMACAddress" Decoder.string).take
      (Source.ofMembers (Value.mergeMembers before changes)) =
        .ok (p.applyTo s).bootMacAddress := (take_congr hafterMac).trans hmac
  rw [htidy]
  refine decode_merge haccepts hnames ?_ (build_eq_ok_iff.2 ⟨honline, himage, hmac⟩)
  simp only [form, List.forall_mem_cons]
  exact ⟨fun _ => check_of_take honline, fun _ => check_of_take himage,
    fun _ => check_of_take hmac, List.forall_mem_nil _⟩

theorem ImageOpen.merge_specPatch (hopen : ImageOpen before) (p : HostPatch) :
    ImageOpen ((Value.object before).merge (Value.object p.specPatch).tidy).members := by
  obtain ⟨changes, htidy, -, hafter⟩ := tidy_specPatch p
  obtain ⟨-, -, hafterImage⟩ := hafter before
  rw [htidy]
  intro v hv
  have hv : valueOf "image" (Value.mergeMembers before changes) = some v := hv
  rw [hafterImage] at hv
  cases hchange : p.image with
  | keep =>
    rw [hchange] at hv
    exact hopen v hv
  | set image =>
    obtain ⟨members, hobject, -⟩ := tidy_object image.parts
    have hobject : image.toValue.tidy = .object members := hobject
    rw [hchange, patchedImage, hobject] at hv
    exact .inr ⟨_, (Option.some.inj hv).symm⟩
  | clear =>
    rw [hchange] at hv
    cases hv

end HostSpec

namespace Host

private theorem build_eq_ok_iff {ms : Members} {h : Host} : form.build ms = .ok h ↔
    (Field.required "metadata" ObjectMeta.form.decode).take ms = .ok h.metadata ∧
      (Field.required "spec" HostSpec.form.decode).take ms = .ok h.spec := by
  simp only [form, except_bind_eq_ok_iff]
  constructor
  · rintro ⟨_, h1, _, h2, heq⟩
    obtain rfl := Except.ok.inj heq
    exact ⟨h1, h2⟩
  · rintro ⟨h1, h2⟩
    exact ⟨_, h1, _, h2, rfl⟩

private theorem decode_merge_object {ms changes : Parts} {h h' : Host}
    (hms : form.decode (.ofValue (.object ms)) = .ok h) (hchanges : (changes.map Prod.fst).Nodup)
    (hmetadata : (Field.required "metadata" ObjectMeta.form.decode).take
      (Source.ofMembers (Value.mergeMembers ms changes)) = .ok h'.metadata)
    (hspec : (Field.required "spec" HostSpec.form.decode).take
      (Source.ofMembers (Value.mergeMembers ms changes)) = .ok h'.spec) :
    form.decode (.ofValue ((Value.object ms).merge (.object changes))) = .ok h' := by
  refine decode_merge (RecordForm.decode_object_eq_ok_iff.1 hms).1 hchanges ?_
    (build_eq_ok_iff.2 ⟨hmetadata, hspec⟩)
  simp only [form, List.forall_mem_cons]
  exact ⟨fun _ => check_of_take hmetadata, fun _ => check_of_take hspec, List.forall_mem_nil _⟩

theorem metadata_of_decode {ms : Parts} {h : Host}
    (hms : form.decode (.ofValue (.object ms)) = .ok h) :
    ∃ members, valueOf "metadata" ms = some (.object members) ∧
      ObjectMeta.TakenFrom (Source.ofMembers members) h.metadata := by
  obtain ⟨v, hv, hdecode⟩ := exists_of_take_required
    (build_eq_ok_iff.1 (RecordForm.decode_object_eq_ok_iff.1 hms).2).1
  obtain ⟨members, rfl, htaken⟩ := ObjectMeta.eq_object_of_decode hdecode
  exact ⟨members, hv, htaken⟩

/-- A patch of the metadata of a document sets finalizers and version of the host. -/
theorem decode_merge_metadata {ms : Parts} {h : Host}
    (hms : form.decode (.ofValue (.object ms)) = .ok h) (finalizers : Option (List String))
    (version : Option String) :
    form.decode (.ofValue ((Value.object ms).merge (metadataPatch finalizers version))) =
      .ok { h with metadata := h.metadata.patched finalizers version } := by
  obtain ⟨hmetadata, hspec⟩ := build_eq_ok_iff.1 (RecordForm.decode_object_eq_ok_iff.1 hms).2
  have hnames := names_metadataPatch finalizers version
  have hvalue (name : String) := valueOf_mergeMembers name ms hnames
  refine decode_merge_object hms hnames (take_metadata hmetadata fun v hv => ?_)
    ((take_congr (hvalue "spec")).trans hspec)
  rw [hvalue "metadata", hv]
  rfl

/-- Whether a document has a spec that can be patched: an object, with an image that is one, or null
or absent. -/
def Patchable (ms : Parts) : Prop :=
  ∃ members, valueOf "spec" ms = some (.object members) ∧ HostSpec.ImageOpen members

private theorem valueOf_spec_merge {ms : Parts} {v : Value} (p : HostPatch)
    (version : Option String) (hv : valueOf "spec" ms = some v) :
    valueOf "spec" ((Value.object ms).merge (p.toMergePatch version)).members =
      some (v.merge (Value.object p.specPatch).tidy) := by
  obtain ⟨changes, htidy, hnames, hvalue⟩ := tidy_object (optionalMember "metadata"
    (fun v => .object (member "resourceVersion" (.string v))) version ++
      member "spec" (.object p.specPatch))
  obtain ⟨specChanges, hspecTidy, -⟩ := tidy_object p.specPatch
  have hpatch : valueOf "spec" (optionalMember "metadata"
      (fun v => Value.object (member "resourceVersion" (.string v))) version ++
        member "spec" (.object p.specPatch)) = some (.object p.specPatch) := by
    cases version <;> rfl
  rw [show p.toMergePatch version = .object changes from htidy, Value.merge]
  refine (valueOf_mergeMembers _ _ hnames).trans ?_
  rw [hvalue, hpatch]
  simp [Value.members, hspecTidy, Value.isNull, hv]

/-- A patch does to the document of a host what it does to the host. -/
theorem decode_merge_toMergePatch {ms : Parts} {h : Host} (p : HostPatch) (version : Option String)
    (hms : form.decode (.ofValue (.object ms)) = .ok h) (hspec : Patchable ms) :
    form.decode (.ofValue ((Value.object ms).merge (p.toMergePatch version))) =
      .ok ⟨h.metadata.patched none version, p.applyTo h.spec⟩ := by
  obtain ⟨changes, htidy, hnames, hvalue⟩ := tidy_object (optionalMember "metadata"
    (fun v => .object (member "resourceVersion" (.string v))) version ++
      member "spec" (.object p.specPatch))
  have htoMergePatch : p.toMergePatch version = .object changes := htidy
  rw [htoMergePatch]
  obtain ⟨hmetadata, hspec'⟩ := build_eq_ok_iff.1 (RecordForm.decode_object_eq_ok_iff.1 hms).2
  have hafter (name : String) := valueOf_mergeMembers name ms hnames
  refine decode_merge_object hms hnames ?_ ?_
  · cases version with
    | none =>
      have hvalueOf : valueOf "metadata" (Value.mergeMembers ms changes) =
          valueOf "metadata" ms := by
        rw [hafter, hvalue]
        rfl
      exact (take_congr hvalueOf).trans hmetadata
    | some version =>
      refine take_metadata hmetadata fun v hv => ?_
      rw [hafter, hvalue, hv]
      rfl
  · obtain ⟨members, hmembers, hopen⟩ := hspec
    obtain ⟨v, hv, hdecode⟩ := exists_of_take_required hspec'
    obtain rfl := Option.some.inj (hv.symm.trans hmembers)
    have hvalueOf := valueOf_spec_merge p version hmembers
    rw [htoMergePatch] at hvalueOf
    exact Eq.trans (take_of_valueOf hvalueOf)
      (HostSpec.decode_merge_specPatch (p := p) hdecode hopen)

theorem Patchable.merge_metadata {ms : Parts} (h : Patchable ms) (finalizers : Option (List String))
    (version : Option String) :
    Patchable ((Value.object ms).merge (metadataPatch finalizers version)).members := by
  obtain ⟨members, hmembers, hopen⟩ := h
  refine ⟨members, ?_, hopen⟩
  exact (valueOf_mergeMembers _ _ (names_metadataPatch finalizers version)).trans hmembers

theorem Patchable.merge_toMergePatch {ms : Parts} (h : Patchable ms) (p : HostPatch)
    (version : Option String) :
    Patchable ((Value.object ms).merge (p.toMergePatch version)).members := by
  obtain ⟨members, hmembers, hopen⟩ := h
  obtain ⟨changes, htidy, -⟩ := tidy_object p.specPatch
  have hspec := valueOf_spec_merge p version hmembers
  have hmerged := hopen.merge_specPatch p
  rw [htidy] at hspec hmerged
  exact ⟨_, hspec, hmerged⟩

theorem fits_toMergePatch (p : HostPatch) (version : Option String) (levels : Nat) :
    (p.toMergePatch version).Fits (levels + 3) := by
  refine fits_tidy (.object (List.forall_mem_append.2 ⟨fits_optionalMember fun v =>
    .object (fits_member (.string v)), fits_member (.object ?_)⟩))
  obtain ⟨online, image⟩ := p
  refine List.forall_mem_append.2 ⟨?_, fits_optionalMember .bool⟩
  cases image with
  | keep => exact fun e he => nomatch he
  | set image => exact fits_member (image.fits levels)
  | clear => exact fits_member .null

end Host

end Relocation
