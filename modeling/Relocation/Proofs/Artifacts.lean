import Relocation.Objects.Descriptor
import Relocation.Objects.Secret
import Relocation.Proofs.Base64
import Relocation.Proofs.Collected
import Relocation.Proofs.Documents
import Relocation.Proofs.Encodings
import Relocation.Proofs.Idempotence
import Relocation.Proofs.Timestamps

/-!
What exported secrets and descriptors are written as. The metadata of a secret that a server
served decodes from its own encoding (`ObjectMeta.decodes`), and so do the whole secret
(`Secret.decodes`) and any descriptor whose metadata does (`Descriptor.decodes`).
-/

set_option autoImplicit false

namespace Relocation

open Json

/-- Whether a moment is of a year that is written with four digits. -/
def Time.Timestamp.FourDigitYear (t : Time.Timestamp) : Prop :=
  0 ≤ t.date.year ∧ t.date.year ≤ 9999

namespace Json

theorem decodes_timestamp {t : Time.Timestamp} (h : t.FourDigitYear) :
    Decodes Decoder.timestamp t (timestampValue t) := by
  have hdecode : Decoder.timestamp (.ofValue (timestampValue t)) = .ok t := by
    simp [timestampValue, Source.ofValue, Decoder.timestamp, t.parse_text h, Except.mapError]
  exact ⟨hdecode, hdecode⟩

theorem decodes_bytes (bs : List UInt8) :
    Decodes Decoder.bytes bs (.string (Text.Base64.encode bs)) := by
  have hdecode : Decoder.bytes (.ofValue (.string (Text.Base64.encode bs))) = .ok bs := by
    simp [Source.ofValue, Decoder.bytes, Text.Base64.decode_encode, Except.mapError]
  exact ⟨hdecode, hdecode⟩

theorem decodes_exactly (s : String) : Decodes (Secret.exactly s) () (.string s) := by
  have hdecode : Secret.exactly s (.ofValue (.string s)) = .ok () := if_pos rfl
  exact ⟨hdecode, hdecode⟩

theorem fits_tableValue {α : Type} {encode : α → Value} {levels : Nat}
    (h : ∀ a, (encode a).Fits levels) (t : Table String α) :
    (tableValue encode t).Fits (levels + 1) := by
  refine .object fun e he => ?_
  obtain ⟨entry, -, rfl⟩ := List.mem_map.1 he
  exact h entry.2

end Json

namespace OwnerReference

theorem decodes (r : OwnerReference) : Decodes form.decode r r.toValue := by
  refine decodes_object ((names_append (names_append (names_append (names_append (names_append
    (names_member _ _) (names_optionalMember _ _ _)) (names_optionalMember _ _ _))
    (names_member _ _)) (names_member _ _)) (names_member _ _)).nodup (by decide)) fun ms h => ?_
  have hversion := h.take (f := .lenient "apiVersion" _)
    (holds_lenient (by simp) (decodes_string r.apiVersion) rfl)
  have hblock := h.take (f := .optional "blockOwnerDeletion" _)
    (holds_optional .bool r.blockOwnerDeletion (by simp) (fun b _ => decodes_bool b) fun _ => rfl)
  have hcontroller := h.take (f := .optional "controller" _)
    (holds_optional .bool r.controller (by simp) (fun b _ => decodes_bool b) fun _ => rfl)
  have hkind := h.take (f := .lenient "kind" _)
    (holds_lenient (by simp) (decodes_string r.kind) rfl)
  have hname := h.take (f := .lenient "name" _)
    (holds_lenient (by simp) (decodes_string r.name) rfl)
  have huid := h.take (f := .lenient "uid" _)
    (holds_lenient (by simp) (decodes_string r.uid) rfl)
  constructor
  · simp only [form, List.forall_mem_cons]
    exact ⟨fun _ => check_of_take hversion, fun _ => check_of_take hblock,
      fun _ => check_of_take hcontroller, fun _ => check_of_take hkind,
      fun _ => check_of_take hname, fun _ => check_of_take huid, List.forall_mem_nil _⟩
  · simp only [form, hversion, hblock, hcontroller, hkind, hname, huid]
    rfl

theorem fits (r : OwnerReference) (levels : Nat) : r.toValue.Fits (levels + 1) :=
  .object (fits_append (fits_append (fits_append (fits_append (fits_append
    (fits_member (.string _)) (fits_optionalMember fun b => .bool b))
    (fits_optionalMember fun b => .bool b)) (fits_member (.string _)))
    (fits_member (.string _))) (fits_member (.string _)))

end OwnerReference

namespace ManagedFields

/-- What a server guarantees of a record of fields: its moment is of a year of four digits, and the
fields are not null, but a tidy value without fractions and with no more levels than there is room
for below the record of a secret. -/
structure Served (m : ManagedFields) : Prop where
  time : ∀ t, m.time = some t → t.FourDigitYear
  present : ∀ v, m.fieldsV1 = some v → v.isNull = false
  tidy : ∀ v, m.fieldsV1 = some v → v.tidy = v
  fits : ∀ v, m.fieldsV1 = some v → v.Fits (maxDepth - 4)

variable {m : ManagedFields}

theorem decodes (hm : m.Served) : Decodes form.decode m m.toValue := by
  refine decodes_object ((names_append (names_append (names_append (names_append (names_append
    (names_append (names_optionalMember _ _ _) (names_optionalMember _ _ _))
    (names_optionalMember _ _ _)) (names_optionalMember _ _ _)) (names_optionalMember _ _ _))
    (names_optionalMember _ _ _)) (names_optionalMember _ _ _)).nodup (by decide)) fun ms h => ?_
  have hversion := h.take (f := .optional "apiVersion" _)
    (holds_optional .string m.apiVersion (by simp) (fun s _ => decodes_string s) fun _ => rfl)
  have htype := h.take (f := .optional "fieldsType" _)
    (holds_optional .string m.fieldsType (by simp) (fun s _ => decodes_string s) fun _ => rfl)
  have hfields : (Field.optional "fieldsV1" Decoder.any).take (Source.ofMembers ms) =
      .ok m.fieldsV1 := by
    refine h.take ?_
    cases hv : m.fieldsV1 with
    | none => exact holds_of_absent (by simp [Field.optional]) rfl
    | some v =>
      exact holds_of_value (v := v) (by simp [Field.optional])
        ((decodes_any (hm.tidy v hv)).optional (hm.present v hv))
  have hmanager := h.take (f := .optional "manager" _)
    (holds_optional .string m.manager (by simp) (fun s _ => decodes_string s) fun _ => rfl)
  have hoperation := h.take (f := .optional "operation" _)
    (holds_optional .string m.operation (by simp) (fun s _ => decodes_string s) fun _ => rfl)
  have hsubresource := h.take (f := .optional "subresource" _)
    (holds_optional .string m.subresource (by simp) (fun s _ => decodes_string s) fun _ => rfl)
  have htime := h.take (f := .optional "time" _)
    (holds_optional timestampValue m.time (by simp) (fun t ht => decodes_timestamp (hm.time t ht))
      fun _ => rfl)
  constructor
  · simp only [form, List.forall_mem_cons]
    exact ⟨fun _ => check_of_take hversion, fun _ => check_of_take htype,
      fun _ => check_of_take hfields, fun _ => check_of_take hmanager,
      fun _ => check_of_take hoperation, fun _ => check_of_take hsubresource,
      fun _ => check_of_take htime, List.forall_mem_nil _⟩
  · simp only [form, hversion, htype, hfields, hmanager, hoperation, hsubresource, htime]
    rfl

private theorem fits_value (hm : m.Served) : m.toValue.Fits (maxDepth - 3) := by
  have hfields : ∀ e ∈ optionalMember "fieldsV1" id m.fieldsV1, e.2.Fits (maxDepth - 4) := by
    intro e he
    cases hv : m.fieldsV1 with
    | none =>
      rw [hv] at he
      cases he
    | some v =>
      rw [hv] at he
      obtain rfl := List.mem_singleton.1 he
      exact hm.fits v hv
  exact .object (fits_append (fits_append (fits_append (fits_append (fits_append (fits_append
    (fits_optionalMember fun s => .string s) (fits_optionalMember fun s => .string s)) hfields)
    (fits_optionalMember fun s => .string s)) (fits_optionalMember fun s => .string s))
    (fits_optionalMember fun s => .string s)) (fits_optionalMember fun t => .string t.text))

end ManagedFields

namespace ObjectMeta

/-- What a server guarantees of metadata: its moments are of years of four digits, and so it is with
the records of fields. -/
structure Served (m : ObjectMeta) : Prop where
  created : ∀ t, m.creationTimestamp = some t → t.FourDigitYear
  deleted : ∀ t, m.deletionTimestamp = some t → t.FourDigitYear
  managed : ∀ entries, m.managedFields = some entries → ∀ e ∈ entries, e.Served

variable {m : ObjectMeta}

/-- The names of the members that metadata is written as. -/
def memberNames : List String :=
  ["annotations", "creationTimestamp", "deletionGracePeriodSeconds", "deletionTimestamp",
    "finalizers", "generateName", "generation", "labels", "managedFields", "name", "namespace",
    "ownerReferences", "resourceVersion", "selfLink", "uid"]

def parts (m : ObjectMeta) : Parts :=
  optionalMember "annotations" (tableValue .string) m.annotations ++
    optionalMember "creationTimestamp" timestampValue m.creationTimestamp ++
    optionalMember "deletionGracePeriodSeconds" .int64 m.deletionGracePeriodSeconds ++
    optionalMember "deletionTimestamp" timestampValue m.deletionTimestamp ++
    optionalMember "finalizers" (listValue .string) m.finalizers ++
    optionalMember "generateName" .string m.generateName ++
    optionalMember "generation" .int64 m.generation ++
    optionalMember "labels" (tableValue .string) m.labels ++
    optionalMember "managedFields" (listValue ManagedFields.toValue) m.managedFields ++
    optionalMember "name" .string m.name ++
    optionalMember "namespace" .string m.space ++
    optionalMember "ownerReferences" (listValue OwnerReference.toValue) m.ownerReferences ++
    optionalMember "resourceVersion" .string m.resourceVersion ++
    optionalMember "selfLink" .string m.selfLink ++
    optionalMember "uid" .string m.uid

private theorem names_parts (m : ObjectMeta) : (m.parts.map Prod.fst).Sublist memberNames :=
  names_append (names_append (names_append (names_append (names_append (names_append (names_append
    (names_append (names_append (names_append (names_append (names_append (names_append
    (names_append (names_optionalMember _ _ _) (names_optionalMember _ _ _))
    (names_optionalMember _ _ _)) (names_optionalMember _ _ _)) (names_optionalMember _ _ _))
    (names_optionalMember _ _ _)) (names_optionalMember _ _ _)) (names_optionalMember _ _ _))
    (names_optionalMember _ _ _)) (names_optionalMember _ _ _)) (names_optionalMember _ _ _))
    (names_optionalMember _ _ _)) (names_optionalMember _ _ _)) (names_optionalMember _ _ _))
    (names_optionalMember _ _ _)

private theorem takenFrom_says (hm : m.Served) {ms : Parts} (h : Says m.parts ms) :
    TakenFrom (Source.ofMembers ms) m where
  annotations := h.take (holds_optional (tableValue .string) m.annotations (by simp [parts])
    (fun _ _ => decodes_table fun e _ => decodes_string e.2) fun _ => rfl)
  creationTimestamp := h.take (holds_optional timestampValue m.creationTimestamp (by simp [parts])
    (fun t ht => decodes_timestamp (hm.created t ht)) fun _ => rfl)
  deletionGracePeriodSeconds := h.take (holds_optional .int64 m.deletionGracePeriodSeconds
    (by simp [parts]) (fun n _ => decodes_int64 n) fun _ => rfl)
  deletionTimestamp := h.take (holds_optional timestampValue m.deletionTimestamp (by simp [parts])
    (fun t ht => decodes_timestamp (hm.deleted t ht)) fun _ => rfl)
  finalizers := h.take (holds_optional (listValue .string) m.finalizers (by simp [parts])
    (fun _ _ => decodes_list fun s _ => decodes_string s) fun _ => rfl)
  generateName := h.take (holds_optional .string m.generateName (by simp [parts])
    (fun s _ => decodes_string s) fun _ => rfl)
  generation := h.take (holds_optional .int64 m.generation (by simp [parts])
    (fun n _ => decodes_int64 n) fun _ => rfl)
  labels := h.take (holds_optional (tableValue .string) m.labels (by simp [parts])
    (fun _ _ => decodes_table fun e _ => decodes_string e.2) fun _ => rfl)
  managedFields := h.take (holds_optional (listValue ManagedFields.toValue) m.managedFields
    (by simp [parts])
    (fun entries he => decodes_list fun e hmem =>
      ManagedFields.decodes (hm.managed entries he e hmem))
    fun _ => rfl)
  name := h.take (holds_optional .string m.name (by simp [parts])
    (fun s _ => decodes_string s) fun _ => rfl)
  space := h.take (holds_optional .string m.space (by simp [parts])
    (fun s _ => decodes_string s) fun _ => rfl)
  ownerReferences := h.take (holds_optional (listValue OwnerReference.toValue) m.ownerReferences
    (by simp [parts]) (fun _ _ => decodes_list fun r _ => r.decodes) fun _ => rfl)
  resourceVersion := h.take (holds_optional .string m.resourceVersion (by simp [parts])
    (fun s _ => decodes_string s) fun _ => rfl)
  selfLink := h.take (holds_optional .string m.selfLink (by simp [parts])
    (fun s _ => decodes_string s) fun _ => rfl)
  uid := h.take (holds_optional .string m.uid (by simp [parts])
    (fun s _ => decodes_string s) fun _ => rfl)

theorem decodes (hm : m.Served) : Decodes form.decode m m.toValue := by
  refine decodes_object (m.names_parts.nodup (by decide)) fun ms h => ?_
  have htaken := takenFrom_says hm h
  exact ⟨htaken.checks, build_eq_ok_iff.2 htaken⟩

theorem fits (hm : m.Served) : m.toValue.Fits (maxDepth - 1) := by
  have hmanaged : ∀ e ∈ optionalMember "managedFields" (listValue ManagedFields.toValue)
      m.managedFields, e.2.Fits (maxDepth - 2) := by
    intro e he
    cases hentries : m.managedFields with
    | none =>
      rw [hentries] at he
      cases he
    | some entries =>
      rw [hentries] at he
      obtain rfl := List.mem_singleton.1 he
      exact fits_listValue fun e he => ManagedFields.fits_value (hm.managed entries hentries e he)
  exact .object (fits_append (fits_append (fits_append (fits_append (fits_append (fits_append
    (fits_append (fits_append (fits_append (fits_append (fits_append (fits_append (fits_append
    (fits_append
    (fits_optionalMember (fits_tableValue fun s => .string s))
    (fits_optionalMember fun t => .string t.text)) (fits_optionalMember fun _ => .int _ _))
    (fits_optionalMember fun t => .string t.text))
    (fits_optionalMember fun _ => fits_listValue fun s _ => .string s))
    (fits_optionalMember fun s => .string s)) (fits_optionalMember fun _ => .int _ _))
    (fits_optionalMember (fits_tableValue fun s => .string s))) hmanaged)
    (fits_optionalMember fun s => .string s)) (fits_optionalMember fun s => .string s))
    (fits_optionalMember fun _ => fits_listValue fun r _ => r.fits _))
    (fits_optionalMember fun s => .string s)) (fits_optionalMember fun s => .string s))
    (fits_optionalMember fun s => .string s))

end ObjectMeta

namespace Secret

theorem decodes {s : Secret} (hs : s.metadata.Served) : Decodes form.decode s s.toValue := by
  refine decodes_object ((names_append (names_append (names_append (names_append (names_append
    (names_append (names_member _ _) (names_member _ _)) (names_optionalMember _ _ _))
    (names_optionalMember _ _ _)) (names_member _ _)) (names_optionalMember _ _ _))
    (names_optionalMember _ _ _)).nodup (by decide)) fun ms h => ?_
  have hversion := h.take (f := .defaulted "apiVersion" (exactly "v1") ())
    (holds_of_value (by simp [Field.defaulted]) (decodes_exactly "v1"))
  have hkind := h.take (f := .defaulted "kind" (exactly "Secret") ())
    (holds_of_value (by simp [Field.defaulted]) (decodes_exactly "Secret"))
  have hdata := h.take (f := .optional "data" _)
    (holds_optional (tableValue fun b => .string (Text.Base64.encode b)) s.data (by simp)
      (fun _ _ => decodes_table fun e _ => decodes_bytes e.2) fun _ => rfl)
  have himmutable := h.take (f := .optional "immutable" _)
    (holds_optional .bool s.immutable (by simp) (fun b _ => decodes_bool b) fun _ => rfl)
  have hmetadata := h.take (f := .lenient "metadata" _)
    (holds_lenient (by simp) (ObjectMeta.decodes hs) rfl)
  have hstrings := h.take (f := .optional "stringData" _)
    (holds_optional (tableValue .string) s.stringData (by simp)
      (fun _ _ => decodes_table fun e _ => decodes_string e.2) fun _ => rfl)
  have htype := h.take (f := .optional "type" _)
    (holds_optional .string s.type (by simp) (fun t _ => decodes_string t) fun _ => rfl)
  constructor
  · simp only [form, List.forall_mem_cons]
    exact ⟨fun _ => check_of_take hversion, fun _ => check_of_take hkind,
      fun _ => check_of_take hdata, fun _ => check_of_take himmutable,
      fun _ => check_of_take hmetadata, fun _ => check_of_take hstrings,
      fun _ => check_of_take htype, fun _ hk => absurd hk List.not_mem_nil⟩
  · simp only [form, hdata, himmutable, hmetadata, hstrings, htype]
    rfl

theorem fits {s : Secret} (hs : s.metadata.Served) : s.toValue.Fits maxDepth :=
  .object (fits_append (fits_append (fits_append (fits_append (fits_append (fits_append
    (fits_member (.string _)) (fits_member (.string _)))
    (fits_optionalMember (fits_tableValue fun _ => .string _)))
    (fits_optionalMember fun b => .bool b)) (fits_member (ObjectMeta.fits hs)))
    (fits_optionalMember (fits_tableValue fun t => .string t)))
    (fits_optionalMember fun t => .string t))

end Secret

namespace Descriptor

theorem decodes {d : Descriptor} (hd : d.metadata.Served) : Decodes form.decode d d.toValue := by
  refine decodes_object ((names_append (names_append (names_append (names_member _ _)
    (names_member _ _)) (names_member _ _)) (names_member _ _)).nodup (by decide)) fun ms h => ?_
  have hversion := h.take (f := .required "apiVersion" _)
    (holds_required (by simp) (decodes_string d.apiVersion))
  have hkind := h.take (f := .required "kind" _)
    (holds_required (by simp) (decodes_string d.kind))
  have hmetadata := h.take (f := .required "metadata" _)
    (holds_required (by simp) (ObjectMeta.decodes hd))
  have hspec := h.take (f := .required "spec" _) (holds_required (by simp) d.spec.decodes)
  constructor
  · simp only [form, List.forall_mem_cons]
    exact ⟨fun _ => check_of_take hversion, fun _ => check_of_take hkind,
      fun _ => check_of_take hmetadata, fun _ => check_of_take hspec, List.forall_mem_nil _⟩
  · simp only [form, hversion, hkind, hmetadata, hspec]
    rfl

theorem fits {d : Descriptor} (hd : d.metadata.Served) : d.toValue.Fits maxDepth :=
  .object (fits_append (fits_append (fits_append (fits_member (.string _))
    (fits_member (.string _))) (fits_member (ObjectMeta.fits hd))) (fits_member (d.spec.fits _)))

end Descriptor

section Exports

open Files (FileSystem)
open Program Store

variable {dataDir : Path} {c : ClusterConfig} {m : Memory} {fs : FileSystem}
  {s t : Memory × FileSystem}

private theorem collect_run {artifacts : List (Artifact × String)}
    (h : (collect c).run (besideFiles Memory.answer) s = (.ok artifacts, t)) :
    (∃ d, Descriptor.ofConfig c .standard = .ok d ∧
        (Artifact.descriptor, d.toValue.text) ∈ artifacts) ∧
      ∀ artifact r, (artifact, r) ∈ c.spec.secretReferences →
        ∃ secret, s.1.secrets.get? r.key = some secret ∧
          (artifact, secret.toValue.text) ∈ artifacts := by
  obtain ⟨-, rfl, hstored⟩ := collect_calledFor h
  obtain ⟨d, hd⟩ : ∃ d, Descriptor.ofConfig c .standard = .ok d := ⟨_, rfl⟩
  constructor
  · exact ⟨d, hd, mem_calledFor.2 (exportedText_descriptor hd)⟩
  · intro artifact r hmem
    have href := mem_secretReferences.1 hmem
    obtain ⟨secret, hsecret⟩ := Option.isSome_iff_exists.1 (hstored artifact r href)
    exact ⟨secret, hsecret, mem_calledFor.2 (exportedText_stored href hsecret)⟩

theorem Descriptor.served_ofConfig {d : Descriptor} (h : Descriptor.ofConfig c .standard = .ok d) :
    d.metadata.Served := by
  have hmetadata : d.metadata = { name := some c.metadata.anyName, space := c.metadata.space } := by
    obtain rfl := Except.ok.inj h
    rfl
  rw [hmetadata]
  exact ⟨by simp, by simp, by simp⟩

/-- Artifacts decode to what they were made from. After an export that came to its end, the file of
every referenced secret decodes to the secret that the store has, and the file of the descriptor to
the descriptor of the config. -/
theorem artifacts_decode (hl : fs.Linkless)
    (hserved : ∀ artifact r secret, (artifact, r) ∈ c.spec.secretReferences →
      m.secrets.get? r.key = some secret → secret.metadata.Served)
    (h : (exportConfig dataDir c).run (besideFiles Memory.answer) (m, fs) = (.ok .settled, t)) :
    (∀ artifact r, (artifact, r) ∈ c.spec.secretReferences →
      ∃ secret text, m.secrets.get? r.key = some secret ∧
        t.2.readFile ((exportDirs dataDir c.key).files.join artifact.fileName) = .ok text ∧
        Secret.form.decode.ofText text = .ok secret) ∧
      ∃ d text, Descriptor.ofConfig c .standard = .ok d ∧
        t.2.readFile ((exportDirs dataDir c.key).files.join Artifact.descriptor.fileName) =
          .ok text ∧
        Descriptor.form.decode.ofText text = .ok d := by
  obtain ⟨rfl, hexported⟩ : t.1 = m ∧ Exported ⟨dataDir, ""⟩ c t := exported_of_run hl h
  obtain ⟨artifacts, hcollect, hreads⟩ := hexported.texts
  obtain ⟨⟨d, hd, hdescriptor⟩, hsecrets⟩ := collect_run hcollect
  constructor
  · intro artifact r hmem
    obtain ⟨secret, hsecret, htext⟩ := hsecrets artifact r hmem
    have hmetadata := hserved artifact r secret hmem hsecret
    exact ⟨secret, _, hsecret, hreads _ _ htext,
      (Secret.decodes hmetadata).ofText (Secret.fits hmetadata)⟩
  · have hmetadata := Descriptor.served_ofConfig hd
    exact ⟨d, _, hd, hreads _ _ hdescriptor,
      (Descriptor.decodes hmetadata).ofText (Descriptor.fits hmetadata)⟩

private def servedSecret : Secret where
  data := some (Table.empty.insert "tls.key" [0, 255, 10, 34])
  metadata := {
    name := some "pull"
    space := some "edge"
    annotations := some .empty
    creationTimestamp := some ⟨⟨2016, 12, 31⟩, 23, 59, 60, by decide⟩
    labels := some (Table.empty.insert "quoted" "\"\n")
    managedFields := some [{
      (default : ManagedFields) with
      fieldsV1 := some (.object [("f:data", .object [])])
      time := some ⟨⟨2016, 12, 31⟩, 23, 59, 60, by decide⟩ }] }

private def exportedConfig : ClusterConfig where
  metadata := { name := some "site", space := some "edge" }
  spec := { relocation := { domain := "example.com", pullSecretRef := some ⟨"pull", "edge"⟩ } }

private def secretMemory : Memory := { secrets := Table.empty.insert ⟨"edge", "pull"⟩ servedSecret }

private def madeExport : Except Error Outcome × Memory × FileSystem :=
  (exportConfig ⟨true, ["data"]⟩ exportedConfig).run (besideFiles Memory.answer)
    (secretMemory, { entries := Table.empty.insert ["data"] (.directory 0o755) })

/-- The secret comes back out of its file. -/
theorem artifacts_decode_pull_secret :
    madeExport.1 = .ok .settled ∧ ∃ text,
      madeExport.2.2.readFile (((exportDirs ⟨true, ["data"]⟩ ⟨"edge", "site"⟩).files).join
        Artifact.pullSecret.fileName) = .ok text ∧
      Secret.form.decode.ofText text = .ok servedSecret := by
  have hempty : ({} : FileSystem).Linkless := fun _ _ => nofun
  have hlinkless := Files.FileSystem.linkless_place hempty
    (show ∀ target, Files.Entry.directory 0o755 ≠ .link target by simp) ["data"]
  have hsettled : madeExport.1 = .ok .settled := rfl
  have hyear : (0 : Int) ≤ 2016 ∧ (2016 : Int) ≤ 9999 := by decide
  have hserved : servedSecret.metadata.Served := by
    have hnone : servedSecret.metadata.deletionTimestamp = none := rfl
    refine ⟨fun t ht => ?_, by simp [hnone], fun entries hentries e he => ?_⟩
    · obtain rfl := Option.some.inj ht
      exact hyear
    · obtain rfl := Option.some.inj hentries
      obtain rfl := List.mem_singleton.1 he
      refine ⟨fun t ht => ?_, fun v hv => ?_, fun v hv => ?_, fun v hv => ?_⟩
      · obtain rfl := Option.some.inj ht
        exact hyear
      · obtain rfl := Option.some.inj hv
        rfl
      · obtain rfl := Option.some.inj hv
        rfl
      · obtain rfl := Option.some.inj hv
        exact .object fun e he => List.mem_singleton.1 he ▸ .object fun _ hnone => nomatch hnone
  have hget (r : SecretReference) (secret : Secret)
      (h : secretMemory.secrets.get? r.key = some secret) : secret = servedSecret := by
    by_cases hkey : r.key = ⟨"edge", "pull"⟩
    · rw [hkey] at h
      exact (Option.some.inj h).symm
    · rw [secretMemory, Table.get?_insert_of_ne _ _ hkey] at h
      cases h
  have hrun : (exportConfig ⟨true, ["data"]⟩ exportedConfig).run (besideFiles Memory.answer)
      (secretMemory, { entries := Table.empty.insert ["data"] (.directory 0o755) }) =
        (.ok .settled, madeExport.2) := Prod.ext hsettled rfl
  obtain ⟨hsecrets, -⟩ := artifacts_decode hlinkless
    (fun _ r secret _ h => hget r secret h ▸ hserved) hrun
  obtain ⟨secret, text, hsecret, hread, hdecode⟩ :=
    hsecrets .pullSecret ⟨"pull", "edge"⟩
      (by simp [exportedConfig, ClusterConfigSpec.secretReferences])
  obtain rfl := hget _ secret hsecret
  exact ⟨hsettled, text, hread, hdecode⟩

end Exports

end Relocation
