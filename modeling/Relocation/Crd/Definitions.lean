import Relocation.Crd.Schema

/-!
The definitions of the resources that the controller works with, as they are given to the cluster.
-/

set_option autoImplicit false

namespace Relocation.Crd

open Json

/-- The names of a kind of objects. -/
structure Names where
  kind : String
  plural : String
  singular : String
  short : List String

/-- A column of a listing: its name, its type and the path to its value. -/
structure Column where
  name : String
  type : String
  path : String

/-- A resource that is added to the cluster. -/
structure Definition where
  group : String
  version : String
  names : Names
  columns : List Column
  hasStatus : Bool
  schema : Schema

namespace Definition

def columnValue (c : Column) : Value :=
  .object (member "jsonPath" (.string c.path) ++ member "name" (.string c.name) ++
    member "type" (.string c.type))

def versionValue (d : Definition) : Value :=
  .object (member "additionalPrinterColumns" (listValue columnValue d.columns) ++
    member "name" (.string d.version) ++
    member "schema" (.object (member "openAPIV3Schema" (.object d.schema))) ++
    member "served" (.bool true) ++
    member "storage" (.bool true) ++
    member "subresources" (.object (if d.hasStatus then member "status" (.object []) else [])))

def toValue (d : Definition) : Value :=
  (Value.object (member "apiVersion" (.string "apiextensions.k8s.io/v1") ++
    member "kind" (.string "CustomResourceDefinition") ++
    member "metadata" (.object (member "name" (.string (d.names.plural ++ "." ++ d.group)))) ++
    member "spec" (.object (member "group" (.string d.group) ++
      member "names" (.object (member "categories" (.array []) ++
        member "kind" (.string d.names.kind) ++
        member "plural" (.string d.names.plural) ++
        member "shortNames" (listValue .string d.names.short) ++
        member "singular" (.string d.names.singular))) ++
      member "scope" (.string "Namespaced") ++
      member "versions" (.array [d.versionValue]))))).tidy

end Definition

/-- The schema of an object of a kind: its spec and perhaps its status. -/
def objectSchema (kind : String) (properties : List Property) : Schema :=
  ((Schema.record properties).described
    ("Auto-generated derived type for " ++ kind ++ "Spec via `CustomResource`")).titled kind

def referenceSchema : Schema := .record [bare "name" .string, bare "namespace" .string]

def acmSchema : Schema := .record [
  optional "url" "Hub API URL" .string,
  required "acmSecret" "Secret holding the hub credentials" referenceSchema]

def catalogSchema : Schema := (Schema.record [
  required "name" "Name of the CatalogSource" .string,
  required "image" "Operator-registry container image" .string]).described
    "Operator catalog to install"

def mirrorsSchema : Schema := (Schema.record [
  required "source" "Repository being mirrored" .string,
  defaulted "mirrors" "Mirror repositories, in order of preference" (.list .string),
  optional "mirrorSourcePolicy" "AllowContactingSource or NeverContactSource" .string]).described
    "Mirror definition for a source registry"

def registryCertSchema : Schema := .record [
  required "registryHostname" "Hostname of the registry" .string,
  optional "registryPort" "Port the registry is served on" .int32,
  required "certificate" "PEM encoded CA certificate" .string]

def configSpecSchema : Schema := .record [
  optional "apiCertRef" "TLS secret for the API server (self-signed when omitted)" referenceSchema,
  defaulted "catalogSources" "CatalogSources to install on the cluster" (.list catalogSchema),
  required "domain" "New base domain for the cluster" .string,
  defaulted "imageDigestMirrors" "Mirror registry configuration" (.list mirrorsSchema),
  optional "ingressCertRef" "TLS secret for the ingress controller (self-signed when omitted)"
    referenceSchema,
  optional "pullSecretRef" "Replacement for the cluster-wide pull secret" referenceSchema,
  optional "registryCert" "Additional trusted CA for the mirror registry" registryCertSchema,
  defaulted "sshKeys" "Authorized SSH keys appended for the 'core' user" (.list .string),
  optional "acmRegistration" "Registration with an ACM hub after relocation" acmSchema,
  optional "bareMetalHostRef" "BareMetalHost that should boot the generated image" referenceSchema]

def conditionSchema : Schema := (Schema.record [
  required "type" "Condition type" .string,
  required "status" "True, False or Unknown" .string,
  optional "reason" "Machine readable reason" .string,
  optional "message" "Human readable message" .string,
  optional "lastTransitionTime" "Last transition time (RFC 3339)" .string]).described
    "A single observation of the ClusterConfig state"

def configStatusSchema : Schema := .record [
  defaulted "conditions" "Conditions" ((Schema.list conditionSchema).withDefault (.array []))]

def configDescription : String :=
  "ClusterConfig is the user-authored request to relocate a cluster. Its relocation settings " ++
    "are exported to disk for the image builder and, when a BareMetalHost is referenced, the " ++
    "host is pointed at the image."

def clusterConfig : Definition where
  group := "relocation.openshift.io"
  version := "v1alpha1"
  names := ⟨"ClusterConfig", "clusterconfigs", "clusterconfig", []⟩
  columns := [⟨"Domain", "string", ".spec.domain"⟩,
    ⟨"Host", "string", ".spec.bareMetalHostRef.name"⟩,
    ⟨"Age", "date", ".metadata.creationTimestamp"⟩]
  hasStatus := true
  schema := objectSchema "ClusterConfig" [
    required "spec" configDescription configSpecSchema,
    optional "status" "Status of the ClusterConfig" configStatusSchema]

def imageSchema : Schema := .record [
  required "url" "Image URL" .string,
  optional "checksum" "Checksum or URL of the checksum" .string,
  optional "checksumType" "md5, sha256 or sha512" .string,
  optional "diskFormat" "raw, qcow2, vdi, vmdk or live-iso" .string]

def hostSpecSchema : Schema := .record [
  defaulted "online" "Whether the host should be powered on"
    (Schema.boolean.withDefault (.bool false)),
  optional "image" "Image the host should boot or provision" imageSchema,
  optional "bootMACAddress" "MAC address of the boot NIC" .string]

def bareMetalHost : Definition where
  group := "metal3.io"
  version := "v1alpha1"
  names := ⟨"BareMetalHost", "baremetalhosts", "baremetalhost", ["bmh"]⟩
  columns := []
  hasStatus := false
  schema := objectSchema "BareMetalHost" [
    required "spec" "Desired state of a metal3 BareMetalHost" hostSpecSchema]

end Relocation.Crd
