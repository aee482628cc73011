import Relocation.Json.Decode
import Relocation.Json.Encode
import Relocation.Objects.Key

/-!
The metadata that every object of the cluster carries.
-/

set_option autoImplicit false

namespace Relocation

open Json

/-- A reference to an object that owns another. -/
structure OwnerReference where
  apiVersion : String
  blockOwnerDeletion : Option Bool
  controller : Option Bool
  kind : String
  name : String
  uid : String
  deriving Inhabited

/-- A record of who set which fields of an object. -/
structure ManagedFields where
  apiVersion : Option String
  fieldsType : Option String
  fieldsV1 : Option Value
  manager : Option String
  operation : Option String
  subresource : Option String
  time : Option Time.Timestamp
  deriving Inhabited

/-- The metadata of an object; every part may be absent. -/
structure ObjectMeta where
  annotations : Option (Table String String) := none
  creationTimestamp : Option Time.Timestamp := none
  deletionGracePeriodSeconds : Option Int64 := none
  deletionTimestamp : Option Time.Timestamp := none
  finalizers : Option (List String) := none
  generateName : Option String := none
  generation : Option Int64 := none
  labels : Option (Table String String) := none
  managedFields : Option (List ManagedFields) := none
  name : Option String := none
  space : Option String := none
  ownerReferences : Option (List OwnerReference) := none
  resourceVersion : Option String := none
  selfLink : Option String := none
  uid : Option String := none
  deriving Inhabited

namespace OwnerReference

def form : RecordForm OwnerReference :=
  let apiVersion := Field.lenient "apiVersion" Decoder.string
  let blockOwnerDeletion := Field.optional "blockOwnerDeletion" Decoder.bool
  let controller := Field.optional "controller" Decoder.bool
  let kind := Field.lenient "kind" Decoder.string
  let name := Field.lenient "name" Decoder.string
  let uid := Field.lenient "uid" Decoder.string
  { title := "OwnerReference"
    style := .loose
    known := [apiVersion.known, blockOwnerDeletion.known, controller.known, kind.known, name.known,
      uid.known]
    build := fun ms => return {
      apiVersion := ← apiVersion.take ms
      blockOwnerDeletion := ← blockOwnerDeletion.take ms
      controller := ← controller.take ms
      kind := ← kind.take ms
      name := ← name.take ms
      uid := ← uid.take ms } }

def toValue (r : OwnerReference) : Value :=
  .object (member "apiVersion" (.string r.apiVersion) ++
    optionalMember "blockOwnerDeletion" .bool r.blockOwnerDeletion ++
    optionalMember "controller" .bool r.controller ++
    member "kind" (.string r.kind) ++
    member "name" (.string r.name) ++
    member "uid" (.string r.uid))

end OwnerReference

namespace ManagedFields

def form : RecordForm ManagedFields :=
  let apiVersion := Field.optional "apiVersion" Decoder.string
  let fieldsType := Field.optional "fieldsType" Decoder.string
  let fieldsV1 := Field.optional "fieldsV1" Decoder.any
  let manager := Field.optional "manager" Decoder.string
  let operation := Field.optional "operation" Decoder.string
  let subresource := Field.optional "subresource" Decoder.string
  let time := Field.optional "time" Decoder.timestamp
  { title := "ManagedFieldsEntry"
    style := .loose
    known := [apiVersion.known, fieldsType.known, fieldsV1.known, manager.known, operation.known,
      subresource.known, time.known]
    build := fun ms => return {
      apiVersion := ← apiVersion.take ms
      fieldsType := ← fieldsType.take ms
      fieldsV1 := ← fieldsV1.take ms
      manager := ← manager.take ms
      operation := ← operation.take ms
      subresource := ← subresource.take ms
      time := ← time.take ms } }

def toValue (m : ManagedFields) : Value :=
  .object (optionalMember "apiVersion" .string m.apiVersion ++
    optionalMember "fieldsType" .string m.fieldsType ++
    optionalMember "fieldsV1" id m.fieldsV1 ++
    optionalMember "manager" .string m.manager ++
    optionalMember "operation" .string m.operation ++
    optionalMember "subresource" .string m.subresource ++
    optionalMember "time" timestampValue m.time)

end ManagedFields

namespace ObjectMeta

def form : RecordForm ObjectMeta :=
  let annotations := Field.optional "annotations" (Decoder.table Decoder.string)
  let creationTimestamp := Field.optional "creationTimestamp" Decoder.timestamp
  let deletionGracePeriodSeconds := Field.optional "deletionGracePeriodSeconds" Decoder.int64
  let deletionTimestamp := Field.optional "deletionTimestamp" Decoder.timestamp
  let finalizers := Field.optional "finalizers" (Decoder.list Decoder.string)
  let generateName := Field.optional "generateName" Decoder.string
  let generation := Field.optional "generation" Decoder.int64
  let labels := Field.optional "labels" (Decoder.table Decoder.string)
  let managedFields := Field.optional "managedFields" (Decoder.list ManagedFields.form.decode)
  let name := Field.optional "name" Decoder.string
  let space := Field.optional "namespace" Decoder.string
  let ownerReferences := Field.optional "ownerReferences" (Decoder.list OwnerReference.form.decode)
  let resourceVersion := Field.optional "resourceVersion" Decoder.string
  let selfLink := Field.optional "selfLink" Decoder.string
  let uid := Field.optional "uid" Decoder.string
  { title := "ObjectMeta"
    style := .loose
    known := [annotations.known, creationTimestamp.known, deletionGracePeriodSeconds.known,
      deletionTimestamp.known, finalizers.known, generateName.known, generation.known,
      labels.known, managedFields.known, name.known, space.known, ownerReferences.known,
      resourceVersion.known, selfLink.known, uid.known]
    build := fun ms => return {
      annotations := ← annotations.take ms
      creationTimestamp := ← creationTimestamp.take ms
      deletionGracePeriodSeconds := ← deletionGracePeriodSeconds.take ms
      deletionTimestamp := ← deletionTimestamp.take ms
      finalizers := ← finalizers.take ms
      generateName := ← generateName.take ms
      generation := ← generation.take ms
      labels := ← labels.take ms
      managedFields := ← managedFields.take ms
      name := ← name.take ms
      space := ← space.take ms
      ownerReferences := ← ownerReferences.take ms
      resourceVersion := ← resourceVersion.take ms
      selfLink := ← selfLink.take ms
      uid := ← uid.take ms } }

def toValue (m : ObjectMeta) : Value :=
  .object (optionalMember "annotations" (tableValue .string) m.annotations ++
    optionalMember "creationTimestamp" timestampValue m.creationTimestamp ++
    optionalMember "deletionGracePeriodSeconds" .int64 m.deletionGracePeriodSeconds ++
    optionalMember "deletionTimestamp" timestampValue m.deletionTimestamp ++
    optionalMember "finalizers" (listValue .string) m.finalizers ++
    optionalMember "generateName" .string m.generateName ++
    optionalMember "generation" .int64 m.generation ++
    optionalMember "labels" (tableValue .string) m.labels ++
    optionalMember "managedFields" (listValue ManagedFields.toValue) m.managedFields ++
    optionalMember "name" .string m.name ++
    optionalMember "namespace" .string m.space ++
    optionalMember "ownerReferences" (listValue OwnerReference.toValue) m.ownerReferences ++
    optionalMember "resourceVersion" .string m.resourceVersion ++
    optionalMember "selfLink" .string m.selfLink ++
    optionalMember "uid" .string m.uid)

/-- The name, or in its absence the base that a name is generated from. -/
def anyName (m : ObjectMeta) : String := (m.name.or m.generateName).getD ""

def key (m : ObjectMeta) : ObjectKey := ⟨m.space.getD "", m.anyName⟩

def finalizerList (m : ObjectMeta) : List String := m.finalizers.getD []

def isDeleting (m : ObjectMeta) : Bool := m.deletionTimestamp.isSome

end ObjectMeta

end Relocation
