import Relocation.Objects.Descriptor
import Relocation.Objects.Host
import Relocation.Proofs.Json.Codecs

/-!
What the specs of configs and hosts and the states of configs are written as. Every record decodes
from its own encoding (`ClusterConfigSpec.decodes`, `ClusterConfigStatus.decodes`,
`HostSpec.decodes`). The settings of a spec stand among its other members and are decoded from
there (`RelocationSettings.takes_says`); the descriptor of a config has exactly these members.
-/

set_option autoImplicit false

namespace Relocation

open Json

private theorem decodes_pair {α : Type} {form : RecordForm α} {x : α}
    {first second s t : String} (hne : first ≠ second)
    (hknown : form.known =
      [(Field.required first Decoder.string).known, (Field.required second Decoder.string).known])
    (hbuild : ∀ ms, (Field.required first Decoder.string).take ms = .ok s →
      (Field.required second Decoder.string).take ms = .ok t → form.build ms = .ok x) :
    Decodes form.decode x (.object (member first (.string s) ++ member second (.string t))) := by
  refine decodes_object ?_ fun ms h => ?_
  · simpa [member] using hne
  · have hfirst := h.take (f := .required first _)
      (holds_required (by simp [hne.symm]) (decodes_string s))
    have hsecond := h.take (f := .required second _)
      (holds_required (by simp) (decodes_string t))
    constructor
    · simp only [hknown, List.forall_mem_cons]
      exact ⟨fun _ => check_of_take hfirst, fun _ => check_of_take hsecond,
        List.forall_mem_nil _⟩
    · exact hbuild _ hfirst hsecond

namespace SecretReference

theorem decodes (r : SecretReference) : Decodes form.decode r r.toValue :=
  decodes_pair (by decide) rfl fun ms hname hspace => by
    simp only [form, hname, hspace]
    rfl

theorem fits (r : SecretReference) (levels : Nat) : r.toValue.Fits (levels + 1) :=
  .object (fits_append (fits_member (.string _)) (fits_member (.string _)))

end SecretReference

namespace CatalogSource

theorem decodes (c : CatalogSource) : Decodes form.decode c c.toValue :=
  decodes_pair (by decide) rfl fun ms hname himage => by
    simp only [form, hname, himage]
    rfl

theorem fits (c : CatalogSource) (levels : Nat) : c.toValue.Fits (levels + 1) :=
  .object (fits_append (fits_member (.string _)) (fits_member (.string _)))

end CatalogSource

namespace HostReference

theorem decodes (r : HostReference) : Decodes form.decode r r.toValue :=
  decodes_pair (by decide) rfl fun ms hname hspace => by
    simp only [form, hname, hspace]
    rfl

theorem fits (r : HostReference) (levels : Nat) : r.toValue.Fits (levels + 1) :=
  .object (fits_append (fits_member (.string _)) (fits_member (.string _)))

end HostReference

namespace ImageDigestMirrors

theorem decodes (m : ImageDigestMirrors) : Decodes form.decode m m.toValue := by
  refine decodes_object ((names_append (names_append (names_member _ _) (names_listMember _ _ _))
    (names_optionalMember _ _ _)).nodup (by decide)) fun ms h => ?_
  have hsource := h.take (f := .required "source" _)
    (holds_required (by simp) (decodes_string m.source))
  have hmirrors := h.take (f := .defaulted "mirrors" _ [])
    (holds_list .string m.mirrors (by simp) fun s _ => decodes_string s)
  have hpolicy := h.take (f := .optional "mirrorSourcePolicy" _)
    (holds_optional .string m.mirrorSourcePolicy (by simp) (fun s _ => decodes_string s)
      fun _ => rfl)
  constructor
  · simp only [form, List.forall_mem_cons]
    exact ⟨fun _ => check_of_take hsource, fun _ => check_of_take hmirrors,
      fun _ => check_of_take hpolicy, List.forall_mem_nil _⟩
  · simp only [form, hsource, hmirrors, hpolicy]
    rfl

theorem fits (m : ImageDigestMirrors) (levels : Nat) : m.toValue.Fits (levels + 2) :=
  .object (fits_append (fits_append (fits_member (.string _))
    (fits_listMember fun s _ => .string s)) (fits_optionalMember fun s => .string s))

end ImageDigestMirrors

namespace RegistryCert

theorem decodes (c : RegistryCert) : Decodes form.decode c c.toValue := by
  refine decodes_object ((names_append (names_append (names_member _ _)
    (names_optionalMember _ _ _)) (names_member _ _)).nodup (by decide)) fun ms h => ?_
  have hhostname := h.take (f := .required "registryHostname" _)
    (holds_required (by simp) (decodes_string c.registryHostname))
  have hport := h.take (f := .optional "registryPort" _)
    (holds_optional .int32 c.registryPort (by simp) (fun n _ => decodes_int32 n) fun _ => rfl)
  have hcertificate := h.take (f := .required "certificate" _)
    (holds_required (by simp) (decodes_string c.certificate))
  constructor
  · simp only [form, List.forall_mem_cons]
    exact ⟨fun _ => check_of_take hhostname, fun _ => check_of_take hport,
      fun _ => check_of_take hcertificate, List.forall_mem_nil _⟩
  · simp only [form, hhostname, hport, hcertificate]
    rfl

theorem fits (c : RegistryCert) (levels : Nat) : c.toValue.Fits (levels + 1) :=
  .object (fits_append (fits_append (fits_member (.string _))
    (fits_optionalMember fun _ => .int _ _)) (fits_member (.string _)))

end RegistryCert

namespace RelocationSettings

/-- The names of the members that settings are written as. -/
def memberNames : List String :=
  ["apiCertRef", "catalogSources", "domain", "imageDigestMirrors", "ingressCertRef",
    "pullSecretRef", "registryCert", "sshKeys"]

theorem names_parts (r : RelocationSettings) : (r.parts.map Prod.fst).Sublist memberNames :=
  names_append (names_append (names_append (names_append (names_append (names_append (names_append
    (names_optionalMember _ _ _) (names_listMember _ _ _)) (names_member _ _))
    (names_listMember _ _ _)) (names_optionalMember _ _ _)) (names_optionalMember _ _ _))
    (names_optionalMember _ _ _)) (names_listMember _ _ _)

/-- Settings are taken out of members that say the same as theirs, among others of other names. -/
theorem takes_says (r : RelocationSettings) {rest ms : Parts}
    (hrest : ∀ name ∈ memberNames, valueOf name rest = none) (h : Says (r.parts ++ rest) ms) :
    form.Takes r ms := by
  have hvalue {name : String} (hname : name ∈ memberNames) :
      valueOf name (r.parts ++ rest) = valueOf name r.parts := by
    rw [valueOf_append, hrest name hname, Option.none_or]
  have hreference {name : String} {o : Option SecretReference} (hname : name ∈ memberNames)
      (ho : valueOf name r.parts = o.map SecretReference.toValue) :
      (Field.optional name SecretReference.form.decode).take (Source.ofMembers ms) = .ok o :=
    h.take (holds_optional SecretReference.toValue o ((hvalue hname).trans ho)
      (fun s _ => s.decodes) fun _ => rfl)
  have hapiCert : (Field.optional "apiCertRef" SecretReference.form.decode).take
      (Source.ofMembers ms) = .ok r.apiCertRef := hreference (by decide) (by simp [parts])
  have hcatalogs := h.take (f := .defaulted "catalogSources" _ [])
    (holds_list CatalogSource.toValue r.catalogSources
      ((hvalue (by decide)).trans (by simp [parts])) fun c _ => c.decodes)
  have hdomain := h.take (f := .required "domain" _)
    (holds_required ((hvalue (by decide)).trans (by simp [parts])) (decodes_string r.domain))
  have hmirrors := h.take (f := .defaulted "imageDigestMirrors" _ [])
    (holds_list ImageDigestMirrors.toValue r.imageDigestMirrors
      ((hvalue (by decide)).trans (by simp [parts])) fun m _ => m.decodes)
  have hingressCert : (Field.optional "ingressCertRef" SecretReference.form.decode).take
      (Source.ofMembers ms) = .ok r.ingressCertRef := hreference (by decide) (by simp [parts])
  have hpullSecret : (Field.optional "pullSecretRef" SecretReference.form.decode).take
      (Source.ofMembers ms) = .ok r.pullSecretRef := hreference (by decide) (by simp [parts])
  have hregistry := h.take (f := .optional "registryCert" _)
    (holds_optional RegistryCert.toValue r.registryCert
      ((hvalue (by decide)).trans (by simp [parts])) (fun c _ => c.decodes) fun _ => rfl)
  have hkeys := h.take (f := .defaulted "sshKeys" _ [])
    (holds_list .string r.sshKeys
      ((hvalue (by decide)).trans (by simp [parts])) fun s _ => decodes_string s)
  constructor
  · simp only [form, List.forall_mem_cons]
    exact ⟨fun _ => check_of_take hapiCert, fun _ => check_of_take hcatalogs,
      fun _ => check_of_take hdomain, fun _ => check_of_take hmirrors,
      fun _ => check_of_take hingressCert, fun _ => check_of_take hpullSecret,
      fun _ => check_of_take hregistry, fun _ => check_of_take hkeys, List.forall_mem_nil _⟩
  · simp only [form, hapiCert, hcatalogs, hdomain, hmirrors, hingressCert, hpullSecret, hregistry,
      hkeys]
    rfl

theorem decodes (r : RelocationSettings) : Decodes form.decode r r.toValue := by
  refine decodes_object (r.names_parts.nodup (by decide)) fun ms h => ?_
  have hnone : ∀ name ∈ memberNames, valueOf name [] = none := fun _ _ => rfl
  exact r.takes_says hnone (by rwa [List.append_nil])

theorem fits_parts (r : RelocationSettings) (levels : Nat) :
    ∀ e ∈ r.parts, e.2.Fits (levels + 3) :=
  fits_append (fits_append (fits_append (fits_append (fits_append (fits_append (fits_append
    (fits_optionalMember fun s => s.fits _) (fits_listMember fun c _ => c.fits _))
    (fits_member (.string _))) (fits_listMember fun m _ => m.fits _))
    (fits_optionalMember fun s => s.fits _)) (fits_optionalMember fun s => s.fits _))
    (fits_optionalMember fun c => c.fits _)) (fits_listMember fun s _ => .string s)

theorem fits (r : RelocationSettings) (levels : Nat) : r.toValue.Fits (levels + 4) :=
  .object (r.fits_parts levels)

end RelocationSettings

namespace AcmRegistration

theorem decodes (r : AcmRegistration) : Decodes form.decode r r.toValue := by
  refine decodes_object ((names_append (names_optionalMember _ _ _) (names_member _ _)).nodup
    (by decide)) fun ms h => ?_
  have hurl := h.take (f := .optional "url" _)
    (holds_optional .string r.url (by simp) (fun s _ => decodes_string s) fun _ => rfl)
  have hsecret := h.take (f := .required "acmSecret" _)
    (holds_required (by simp) r.acmSecret.decodes)
  constructor
  · simp only [form, List.forall_mem_cons]
    exact ⟨fun _ => check_of_take hurl, fun _ => check_of_take hsecret, List.forall_mem_nil _⟩
  · simp only [form, hurl, hsecret]
    rfl

theorem fits (r : AcmRegistration) (levels : Nat) : r.toValue.Fits (levels + 2) :=
  .object (fits_append (fits_optionalMember fun s => .string s) (fits_member (r.acmSecret.fits _)))

end AcmRegistration

namespace ClusterConfigSpec

/-- The names of the members of a spec that are no settings. -/
def ownNames : List String := ["acmRegistration", "bareMetalHostRef"]

def ownParts (s : ClusterConfigSpec) : Parts :=
  optionalMember "acmRegistration" AcmRegistration.toValue s.acmRegistration ++
    optionalMember "bareMetalHostRef" HostReference.toValue s.bareMetalHostRef

theorem toValue_eq (s : ClusterConfigSpec) :
    s.toValue = .object (s.relocation.parts ++ s.ownParts) := by
  rw [toValue, List.append_assoc]
  rfl

private theorem names_ownParts (s : ClusterConfigSpec) :
    (s.ownParts.map Prod.fst).Sublist ownNames :=
  names_append (names_optionalMember _ _ _) (names_optionalMember _ _ _)

theorem decodes (s : ClusterConfigSpec) : Decodes form.decode s s.toValue := by
  rw [toValue_eq]
  refine decodes_object ((names_append s.relocation.names_parts s.names_ownParts).nodup
    (by decide)) fun ms h => ?_
  have hother (name : String) (hname : name ∉ RelocationSettings.memberNames) :
      valueOf name s.relocation.parts = none := by
    cases hv : valueOf name s.relocation.parts with
    | none => rfl
    | some v => exact absurd (s.relocation.names_parts.subset (mem_names_of_valueOf hv)) hname
  have hregistration := h.take (f := .optional "acmRegistration" _)
    (holds_optional AcmRegistration.toValue s.acmRegistration
      (by simp [ownParts, hother "acmRegistration" (by decide)]) (fun r _ => r.decodes)
      fun _ => rfl)
  have hhost := h.take (f := .optional "bareMetalHostRef" _)
    (holds_optional HostReference.toValue s.bareMetalHostRef
      (by simp [ownParts, hother "bareMetalHostRef" (by decide)]) (fun r _ => r.decodes)
      fun _ => rfl)
  have hown : ∀ name ∈ RelocationSettings.memberNames, valueOf name s.ownParts = none := by
    simp [RelocationSettings.memberNames, ownParts]
  have hsettings : RelocationSettings.form.decode (.object (Source.ofMembers ms) none) =
      .ok s.relocation := (s.relocation.takes_says hown h).decode h.names
  constructor
  · simp only [form, List.forall_mem_cons]
    exact ⟨fun _ => check_of_take hregistration, fun _ => check_of_take hhost,
      List.forall_mem_nil _⟩
  · simp only [form, hregistration, hhost, hsettings]
    rfl

theorem fits (s : ClusterConfigSpec) (levels : Nat) : s.toValue.Fits (levels + 4) := by
  rw [toValue_eq]
  exact .object (fits_append (s.relocation.fits_parts levels)
    (fits_append (fits_optionalMember fun r => r.fits _) (fits_optionalMember fun r => r.fits _)))

end ClusterConfigSpec

namespace ConfigCondition

private theorem holds_nullable (name : String) {o : Option String} {ms : Parts}
    (h : valueOf name ms = some (nullable .string o)) :
    (Field.optional name Decoder.string).Holds o ms := by
  cases o with
  | none => exact holds_of_value h (decodes_none _)
  | some s => exact holds_of_value h ((decodes_string s).optional rfl)

theorem decodes (c : ConfigCondition) : Decodes form.decode c c.toValue := by
  refine decodes_object ((names_append (names_append (names_append (names_append
    (names_member _ _) (names_member _ _)) (names_member _ _)) (names_member _ _))
    (names_member _ _)).nodup (by decide)) fun ms h => ?_
  have htype := h.take (f := .required "type" _) (holds_required rfl (decodes_string c.type))
  have hstatus := h.take (f := .required "status" _)
    (holds_required rfl (decodes_string c.status))
  have hreason := h.take (a := c.reason) (holds_nullable "reason" rfl)
  have hmessage := h.take (a := c.message) (holds_nullable "message" rfl)
  have htime := h.take (a := c.lastTransitionTime) (holds_nullable "lastTransitionTime" rfl)
  constructor
  · simp only [form, List.forall_mem_cons]
    exact ⟨fun _ => check_of_take htype, fun _ => check_of_take hstatus,
      fun _ => check_of_take hreason, fun _ => check_of_take hmessage,
      fun _ => check_of_take htime, List.forall_mem_nil _⟩
  · simp only [form, htype, hstatus, hreason, hmessage, htime]
    rfl

private theorem fits_nullable (o : Option String) (levels : Nat) :
    (nullable Value.string o).Fits levels := by
  cases o with
  | none => exact .null
  | some s => exact .string s

theorem fits (c : ConfigCondition) (levels : Nat) : c.toValue.Fits (levels + 1) :=
  .object (fits_append (fits_append (fits_append (fits_append (fits_member (.string _))
    (fits_member (.string _))) (fits_member (fits_nullable _ _)))
    (fits_member (fits_nullable _ _))) (fits_member (fits_nullable _ _)))

end ConfigCondition

namespace ClusterConfigStatus

theorem decodes (s : ClusterConfigStatus) : Decodes form.decode s s.toValue := by
  refine decodes_object ((names_member _ _).nodup (by decide)) fun ms h => ?_
  have hconditions := h.take
    (f := .defaulted "conditions" (Decoder.list ConfigCondition.form.decode) [])
    (holds_of_value rfl (decodes_list fun c _ => c.decodes))
  constructor
  · simp only [form, List.forall_mem_cons]
    exact ⟨fun _ => check_of_take hconditions, List.forall_mem_nil _⟩
  · simp only [form, hconditions]
    rfl

theorem fits (s : ClusterConfigStatus) (levels : Nat) : s.toValue.Fits (levels + 3) :=
  .object (fits_member (fits_listValue fun c _ => c.fits _))

end ClusterConfigStatus

namespace HostImage

theorem decodes (i : HostImage) : Decodes form.decode i i.toValue := by
  refine decodes_object ((names_append (names_append (names_append (names_member _ _)
    (names_optionalMember _ _ _)) (names_optionalMember _ _ _))
    (names_optionalMember _ _ _)).nodup (by decide)) fun ms h => ?_
  have hurl := h.take (f := .required "url" _)
    (holds_required (by simp) (decodes_string i.url))
  have hchecksum := h.take (f := .optional "checksum" _)
    (holds_optional .string i.checksum (by simp) (fun s _ => decodes_string s) fun _ => rfl)
  have hchecksumType := h.take (f := .optional "checksumType" _)
    (holds_optional .string i.checksumType (by simp) (fun s _ => decodes_string s) fun _ => rfl)
  have hdiskFormat := h.take (f := .optional "diskFormat" _)
    (holds_optional .string i.diskFormat (by simp) (fun s _ => decodes_string s) fun _ => rfl)
  constructor
  · simp only [form, List.forall_mem_cons]
    exact ⟨fun _ => check_of_take hurl, fun _ => check_of_take hchecksum,
      fun _ => check_of_take hchecksumType, fun _ => check_of_take hdiskFormat,
      List.forall_mem_nil _⟩
  · simp only [form, hurl, hchecksum, hchecksumType, hdiskFormat]
    rfl

theorem fits (i : HostImage) (levels : Nat) : i.toValue.Fits (levels + 1) :=
  .object (fits_append (fits_append (fits_append (fits_member (.string _))
    (fits_optionalMember fun s => .string s)) (fits_optionalMember fun s => .string s))
    (fits_optionalMember fun s => .string s))

end HostImage

namespace HostSpec

theorem decodes (s : HostSpec) : Decodes form.decode s s.toValue := by
  refine decodes_object ((names_append (names_append (names_member _ _)
    (names_optionalMember _ _ _)) (names_optionalMember _ _ _)).nodup (by decide)) fun ms h => ?_
  have honline := h.take (f := .defaulted "online" Decoder.bool false)
    (holds_of_value (v := .bool s.online) (by simp [Field.defaulted]) (decodes_bool s.online))
  have himage := h.take (f := .optional "image" _)
    (holds_optional HostImage.toValue s.image (by simp) (fun i _ => i.decodes) fun _ => rfl)
  have haddress := h.take (f := .optional "bootMACAddress" _)
    (holds_optional .string s.bootMacAddress (by simp) (fun t _ => decodes_string t) fun _ => rfl)
  constructor
  · simp only [form, List.forall_mem_cons]
    exact ⟨fun _ => check_of_take honline, fun _ => check_of_take himage,
      fun _ => check_of_take haddress, List.forall_mem_nil _⟩
  · simp only [form, honline, himage, haddress]
    rfl

theorem fits (s : HostSpec) (levels : Nat) : s.toValue.Fits (levels + 2) :=
  .object (fits_append (fits_append (fits_member (.bool _))
    (fits_optionalMember fun i => i.fits _)) (fits_optionalMember fun t => .string t))

end HostSpec

section Settings

variable {c : ClusterConfig} {d : Descriptor} {kinds : KindTable}

/-- Whether the spec of one document has the members of the spec of another, in their order and with
their values, but for the registration and the reference to a host. -/
def SettingsOf (descriptor config : Value) : Prop :=
  ∃ members, valueOf "spec" config.members = some (.object members) ∧
    valueOf "spec" descriptor.members = some (.object
      (members.filter fun e => e.1 ∉ ClusterConfigSpec.ownNames))

private theorem filter_parts (s : ClusterConfigSpec) :
    ((s.relocation.parts ++ s.ownParts).filter fun e => e.1 ∉ ClusterConfigSpec.ownNames) =
      s.relocation.parts := by
  have hsettings : ∀ e ∈ s.relocation.parts, e.1 ∉ ClusterConfigSpec.ownNames := by
    intro e he hown
    have hname := s.relocation.names_parts.subset (List.mem_map_of_mem he)
    have hapart : ∀ name ∈ RelocationSettings.memberNames, name ∉ ClusterConfigSpec.ownNames := by
      decide
    exact hapart e.1 hname hown
  have hown : ∀ e ∈ s.ownParts, e.1 ∈ ClusterConfigSpec.ownNames := fun e he =>
    s.names_ownParts.subset (List.mem_map_of_mem he)
  rw [List.filter_append, List.filter_eq_self.2 (by simpa using hsettings),
    List.filter_eq_nil_iff.2 (by simpa using hown), List.append_nil]

private theorem settingsOf_toValue (hspec : d.spec = c.spec.relocation) :
    SettingsOf d.toValue c.toValue := by
  refine ⟨c.spec.relocation.parts ++ c.spec.ownParts, ?_, ?_⟩
  · simp [ClusterConfig.toValue, Value.members, ClusterConfigSpec.toValue_eq]
  · have hmembers : valueOf "spec" d.toValue.members = some (.object d.spec.parts) := by
      simp [Descriptor.toValue, Value.members, RelocationSettings.toValue]
    rw [hmembers, hspec, filter_parts]

private theorem SettingsOf.tidy {ms ms' : Parts} (h : SettingsOf (.object ms) (.object ms')) :
    SettingsOf (Value.object ms).tidy (Value.object ms').tidy := by
  obtain ⟨members, hconfig, hdescriptor⟩ := h
  obtain ⟨ns, htidy, -, hvalue⟩ := tidy_object ms
  obtain ⟨ns', htidy', -, hvalue'⟩ := tidy_object ms'
  obtain ⟨members', hmembers, -, -⟩ := tidy_object members
  refine ⟨members', ?_, ?_⟩
  · rw [htidy', Value.members, hvalue']
    exact (congrArg _ hconfig).trans (congrArg some hmembers)
  · have hpicked := tidy_filter (fun name => name ∉ ClusterConfigSpec.ownNames) members
    rw [hmembers] at hpicked
    rw [htidy, Value.members, hvalue]
    exact (congrArg _ hdescriptor).trans (congrArg some hpicked)

end Settings

/-- Specs and states come back out of what they are written as, through a text and through a tree;
and whatever document a config comes from, its descriptor can be made, and has in its spec the
members of the spec of the config and nothing else, but for the registration and the host. -/
theorem encodings_lossless :
    (∀ s : ClusterConfigSpec, ClusterConfigSpec.form.decode.ofText s.toValue.text = .ok s ∧
      ClusterConfigSpec.form.decode.ofValue s.toValue = .ok s) ∧
    (∀ s : ClusterConfigStatus, ClusterConfigStatus.form.decode.ofText s.toValue.text = .ok s ∧
      ClusterConfigStatus.form.decode.ofValue s.toValue = .ok s) ∧
    (∀ s : HostSpec, HostSpec.form.decode.ofText s.toValue.text = .ok s ∧
      HostSpec.form.decode.ofValue s.toValue = .ok s) ∧
    ∀ (document : Source) (c : ClusterConfig), ClusterConfig.form.decode document = .ok c →
      (∃ d, Descriptor.ofConfig c .standard = .ok d) ∧
      ∀ kinds d, Descriptor.ofConfig c kinds = .ok d →
        SettingsOf d.toValue c.toValue ∧ SettingsOf d.toValue.tidy c.toValue.tidy := by
  refine ⟨fun s => ⟨s.decodes.ofText (s.fits 123), s.decodes.ofValue⟩,
    fun s => ⟨s.decodes.ofText (s.fits 124), s.decodes.ofValue⟩,
    fun s => ⟨s.decodes.ofText (s.fits 125), s.decodes.ofValue⟩,
    fun document c _ => ⟨⟨_, rfl⟩, fun kinds d hd => ?_⟩⟩
  have hspec : d.spec = c.spec.relocation := by
    rw [Descriptor.ofConfig] at hd
    cases hstamp : kinds.stamp descriptorKind with
    | error e => simp [hstamp, bind, Except.bind] at hd
    | ok stamp =>
      rw [hstamp] at hd
      rw [← Except.ok.inj hd]
  have hsettings : SettingsOf d.toValue c.toValue := settingsOf_toValue hspec
  exact ⟨hsettings, hsettings.tidy⟩

/-- A document of a config with members that nothing is known of. -/
def annotatedDocument : Value :=
  .object [("metadata", .object [("name", .string "site"), ("namespace", .string "edge")]),
    ("owner", .string "nobody"),
    ("spec", .object [("colour", .string "blue"),
      ("bareMetalHostRef", .object [("namespace", .string "edge"), ("name", .string "metal")]),
      ("domain", .string "example.com"), ("rest", .array [.null])])]

def annotatedConfig : ClusterConfig where
  metadata := { name := some "site", space := some "edge" }
  spec :=
    { relocation := { domain := "example.com" }
      bareMetalHostRef := some { name := "metal", space := "edge" } }

theorem encodings_lossless_annotated :
    ClusterConfig.form.decode (.ofValue annotatedDocument) = .ok annotatedConfig ∧
    (∃ d, Descriptor.ofConfig annotatedConfig .standard = .ok d) ∧
    ∀ kinds d, Descriptor.ofConfig annotatedConfig kinds = .ok d →
      SettingsOf d.toValue annotatedConfig.toValue ∧
        SettingsOf d.toValue.tidy annotatedConfig.toValue.tidy := by
  have hdecode : ClusterConfig.form.decode (.ofValue annotatedDocument) = .ok annotatedConfig := rfl
  exact ⟨hdecode, encodings_lossless.2.2.2 _ _ hdecode⟩

end Relocation
