import Relocation.Proofs.Documents
import Relocation.Proofs.History
import Relocation.Proofs.OptimisticConcurrency

/-!
The interface of the cluster, as far as the controller relies on it, and what the controller gets
from it. A server keeps documents under their targets. It answers a look-up with the document or
with a refusal that says that there is none; it takes a patch unless the document is absent or has
another version than the patch expects, gives the patched document a new version, and drops an
object that is to be deleted when its last finalizer goes.
-/

set_option autoImplicit false

namespace Relocation.Store

open Json

/-- What a server is free to choose: the versions that it gives out, no two of them alike, which
documents it keeps and how it writes them as text, and the words of its refusals. It keeps what
patches make of its documents, and whoever reads a text finds the document that was written. -/
structure Interface where
  version : Nat → String
  keeps : Value → Prop
  write : Value → String
  explain : ApiRequest → String
  version_injective : Function.Injective version
  keeps_fitting : ∀ v, v.Fits maxDepth → keeps v
  keeps_merge : ∀ v change, keeps v → change.Fits maxDepth → keeps (v.merge change)
  read_write : ∀ v, keeps v → Document.read (write v) = ⟨.ofValue v, none⟩

/-- The documents of a server by their targets, and how many versions it has given out. -/
structure ApiServer where
  objects : Table String Value := .empty
  issued : Nat := 0

def metadataOf (name : String) (d : Value) : Option Value :=
  valueOf name ((valueOf "metadata" d.members).getD .null).members

/-- Whether names are made of a character: a small letter, a digit, a dash or a dot. -/
def isNameChar (c : Char) : Bool := c.isLower || c.isDigit || c = '-' || c = '.'

/-- Whether a text is one that objects are named with: not empty, and not too long. -/
structure IsName (name : String) : Prop where
  nonempty : name ≠ ""
  length_le : name.length ≤ 253
  chars : name.toList.all isNameChar = true

instance (name : String) : Decidable (IsName name) :=
  decidable_of_iff (name ≠ "" ∧ name.length ≤ 253 ∧ name.toList.all isNameChar = true)
    ⟨fun ⟨h, h', h''⟩ => ⟨h, h', h''⟩, fun h => ⟨h.nonempty, h.length_le, h.chars⟩⟩

/-- Whether both parts of a key are names. -/
structure IsNamed (key : ObjectKey) : Prop where
  space : IsName key.space
  name : IsName key.name

instance (key : ObjectKey) : Decidable (IsNamed key) :=
  decidable_of_iff (IsName key.space ∧ IsName key.name)
    ⟨fun ⟨h, h'⟩ => ⟨h, h'⟩, fun h => ⟨h.space, h.name⟩⟩

/-- The version that a document bears, or that a patch expects. -/
def versionOf (d : Value) : Option String :=
  match metadataOf "resourceVersion" d with
  | some (.string version) => some version
  | _ => none

def isMarked (d : Value) : Bool := !((metadataOf "deletionTimestamp" d).getD .null).isNull

def isGuarded (d : Value) : Bool :=
  match metadataOf "finalizers" d with
  | some (.array (_ :: _)) => true
  | _ => false

def Slot.key : Slot → ObjectKey
  | .config key | .host key | .secret key => key

def Slot.target : Slot → String
  | .config key => configTarget key
  | .host key => hostTarget key
  | .secret key => secretTarget key

def pathOf (target : String) : String := String.ofList (target.toList.takeWhile (· ≠ '?'))

namespace ApiServer

variable (i : Interface)

def refuse (q : ApiRequest) (reason : String) (code : UInt16) : ApiResponse :=
  .answered code.toNat (i.write (.object [
    ("kind", .string "Status"), ("apiVersion", .string "v1"), ("metadata", .object []),
    ("status", .string "Failure"), ("message", .string (i.explain q)), ("reason", .string reason),
    ("code", .nat code.toNat (Nat.lt_trans code.toNat_lt (by decide)))]))

/-- A document after a patch, with the version that is given out next. -/
def patched (d change : Value) (s : ApiServer) : Value :=
  (d.merge change).merge (metadataPatch none (some (i.version (s.issued + 1))))

/-- Whether a document that is to be deleted goes with its last finalizer. -/
def drops (before after : Value) : Bool := isMarked after && isGuarded before && !isGuarded after

def patch (q : ApiRequest) (target : String) (change : Value) (s : ApiServer) :
    ApiResponse × ApiServer :=
  match s.objects.get? target with
  | none => (refuse i q absentReason 404, s)
  | some d =>
    if (versionOf change).any fun expected => versionOf d ≠ some expected then
      (refuse i q "Conflict" 409, s)
    else
      (.answered 200 (i.write (s.patched i d change)), {
        objects := if drops d (s.patched i d change) then s.objects.erase target
          else s.objects.insert target (s.patched i d change)
        issued := s.issued + 1 })

def handle (q : ApiRequest) (s : ApiServer) : ApiResponse × ApiServer :=
  if q.verb = "GET" then
    match s.objects.get? q.target with
    | none => (refuse i q absentReason 404, s)
    | some d => (.answered 200 (i.write d), s)
  else if q.verb = "PATCH" ∧ q.contentType = some mergePatchType then
    match Value.parse q.body with
    | .error _ => (refuse i q "BadRequest" 400, s)
    | .ok change => s.patch i q (pathOf q.target) change
  else (refuse i q "MethodNotAllowed" 405, s)

/-- What comes of a store call that goes to a server. -/
def answer (call : StoreCall) (s : ApiServer) : Except Error call.Result × ApiServer :=
  match sendable call with
  | .error e => (.error (.api e), s)
  | .ok q => (resultOf call (s.handle i q).1, (s.handle i q).2)

end ApiServer

section Refusals

variable {i : Interface} {q : ApiRequest}

private theorem fits_refusal (i : Interface) (q : ApiRequest) (reason : String) (code : UInt16) :
    (Value.object [
      ("kind", .string "Status"), ("apiVersion", .string "v1"), ("metadata", .object []),
      ("status", .string "Failure"), ("message", .string (i.explain q)), ("reason", .string reason),
      ("code", .nat code.toNat (Nat.lt_trans code.toNat_lt (by decide)))]).Fits maxDepth := by
  simp [maxDepth]

private theorem objectOf_refuse {α : Type} (form : RecordForm α) (i : Interface) (q : ApiRequest)
    {reason : String} {code : UInt16} (hcode : code = 404 ∨ code = 409) :
    objectOf form (ApiServer.refuse i q reason code) =
      .error (.refused ⟨"Failure", i.explain q, reason, code⟩) := by
  have hread := i.read_write _ (i.keeps_fitting _ (fits_refusal i q reason code))
  have hdecode : refusalForm.decode.ofText (i.write (.object [
      ("kind", .string "Status"), ("apiVersion", .string "v1"), ("metadata", .object []),
      ("status", .string "Failure"), ("message", .string (i.explain q)),
      ("reason", .string reason),
      ("code", .nat code.toNat (Nat.lt_trans code.toNat_lt (by decide)))])) =
        .ok ⟨"Failure", i.explain q, reason, code⟩ := by
    rw [Decoder.ofText, hread]
    rcases hcode with rfl | rfl <;> rfl
  have hstatus : 400 ≤ code.toNat ∧ code.toNat < 600 := by
    rcases hcode with rfl | rfl <;> decide
  simp only [ApiServer.refuse, objectOf, if_pos hstatus, refusalOf, hdecode]

end Refusals

section Targets

variable {key key' : ObjectKey} {name : String}

private theorem isName_code (h : IsName name) {c : Char} (hc : c ∈ name.toList) :
    (97 ≤ c.toNat ∧ c.toNat ≤ 122) ∨ (48 ≤ c.toNat ∧ c.toNat ≤ 57) ∨ c.toNat = 45 ∨
      c.toNat = 46 := by
  have hchar : ((c.isLower = true ∨ c.isDigit = true) ∨ c = '-') ∨ c = '.' := by
    simpa [isNameChar] using List.all_eq_true.1 h.chars c hc
  rcases hchar with ((hlower | hdigit) | rfl) | rfl
  · have hbounds : (decide (97 ≤ c.val) && decide (c.val ≤ 122)) = true := hlower
    rw [Bool.and_eq_true, decide_eq_true_eq, decide_eq_true_eq] at hbounds
    exact .inl hbounds
  · exact .inr (.inl (Char.isDigit_iff_toNat.1 hdigit))
  · exact .inr (.inr (.inl rfl))
  · exact .inr (.inr (.inr rfl))

private theorem slash_not_mem (h : IsName name) : '/' ∉ name.toList := by
  intro hmem
  have := isName_code h hmem
  simp at this

private def isPlain (c : Char) : Bool := isPathChar c && c ≠ '#' && c ≠ '?'

private theorem isPlain_of_isName (h : IsName name) : name.toList.all isPlain = true := by
  refine List.all_eq_true.2 fun c hc => ?_
  have hcode := isName_code h hc
  have hhash : c ≠ '#' := by
    rintro rfl
    simp at hcode
  have hquestion : c ≠ '?' := by
    rintro rfl
    simp at hcode
  simp only [isPlain, Store.isPathChar, hhash, hquestion, Bool.or_eq_true, Bool.and_eq_true,
    decide_eq_true_eq, beq_iff_eq, ne_eq, not_false_eq_true, decide_true, and_true]
  omega

private theorem checkPath_append {cs rest rest' : List Char} (h : cs.all isPlain = true)
    (hrest : checkPath rest = .ok rest') : checkPath (cs ++ rest) = .ok (cs ++ rest') := by
  induction cs with
  | nil => exact hrest
  | cons c cs ih =>
    obtain ⟨⟨⟨hpath, hhash⟩, hquestion⟩, hcs⟩ : ((isPathChar c = true ∧ c ≠ '#') ∧ c ≠ '?') ∧
        cs.all isPlain = true := by
      simpa [isPlain] using h
    rw [List.cons_append, checkPath, if_neg hhash, if_neg hquestion, if_pos hpath, ih hcs]
    rfl

private theorem byteCount_le (cs : List Char) : Text.byteCount cs ≤ 4 * cs.length := by
  induction cs with
  | nil => exact Nat.le_refl 0
  | cons c cs ih =>
    have := c.utf8Size_le_four
    rw [Text.byteCount, List.length_cons]
    omega

private def routed (start kind : String) (key : ObjectKey) : String :=
  start ++ key.space ++ kind ++ key.name

private theorem toList_routed (start kind : String) (key : ObjectKey) :
    (routed start kind key).toList =
      start.toList ++ (key.space.toList ++ (kind.toList ++ key.name.toList)) := by
  simp [routed]

private structure IsRoute (start kind : String) : Prop where
  plainStart : start.toList.all isPlain = true
  plainKind : kind.toList.all isPlain = true
  length_le : start.length + kind.length ≤ 1000
  slash : ∃ rest, kind.toList = '/' :: rest

private theorem plain_routed {start kind : String} (hroute : IsRoute start kind) (h : IsNamed key) :
    (routed start kind key).toList.all isPlain = true := by
  simp [-List.all_eq_true, toList_routed, hroute.plainStart, hroute.plainKind,
    isPlain_of_isName h.space, isPlain_of_isName h.name]

private theorem checkTarget_routed {start kind : String} (hroute : IsRoute start kind)
    (h : IsNamed key) :
    checkTarget (routed start kind key) = .ok (routed start kind key) ∧
      checkTarget (routed start kind key ++ "?") = .ok (routed start kind key ++ "?") := by
  have hplain := plain_routed hroute h
  have hlength : (routed start kind key).toList.length ≤ 1600 := by
    have hspace := h.space.length_le
    have hname := h.name.length_le
    have hconst := hroute.length_le
    rw [toList_routed]
    simp only [List.length_append, String.length_toList]
    omega
  constructor
  · have hbytes := byteCount_le (routed start kind key).toList
    rw [checkTarget, if_neg (by rw [maxTarget]; omega)]
    rw [← List.append_nil (routed start kind key).toList, checkPath_append hplain rfl,
      List.append_nil]
    exact congrArg Except.ok String.ofList_toList
  · have hbytes := byteCount_le (routed start kind key ++ "?").toList
    have hmore : (routed start kind key ++ "?").toList =
        (routed start kind key).toList ++ ['?'] := by
      simp
    rw [hmore, List.length_append, List.length_singleton] at hbytes
    rw [checkTarget, hmore, if_neg (by rw [maxTarget]; omega), checkPath_append hplain rfl, ← hmore]
    exact congrArg Except.ok String.ofList_toList

private theorem routed_inj {start kind : String} (hroute : IsRoute start kind) (h : IsNamed key)
    (h' : IsNamed key') (heq : routed start kind key = routed start kind key') : key = key' := by
  obtain ⟨rest, hkind⟩ := hroute.slash
  have hlist := congrArg String.toList heq
  rw [toList_routed, toList_routed, List.append_cancel_left_eq, hkind] at hlist
  simp only [List.cons_append] at hlist
  have hspaces : key.space.toList = key'.space.toList := by
    have htake {key : ObjectKey} (hkey : IsNamed key) (later : List Char) :
        (key.space.toList ++ '/' :: later).takeWhile (· ≠ '/') = key.space.toList := by
      rw [List.takeWhile_append_of_pos, List.takeWhile_cons_of_neg (by simp), List.append_nil]
      intro c hc
      have hne : c ≠ '/' := fun heq => slash_not_mem hkey.space (heq ▸ hc)
      simpa using hne
    have hcut := congrArg (List.takeWhile (· ≠ '/')) hlist
    rwa [htake h, htake h'] at hcut
  rw [hspaces, List.append_cancel_left_eq, List.cons.injEq, List.append_cancel_left_eq] at hlist
  have hspace : key.space = key'.space := String.toList_injective hspaces
  have hname : key.name = key'.name := String.toList_injective hlist.2
  cases key
  cases key'
  simp_all

private theorem isRoute_config :
    IsRoute ("/apis/" ++ ClusterConfig.apiVersion ++ "/namespaces/") "/clusterconfigs/" :=
  ⟨by cbv, by cbv, by cbv, _, rfl⟩

private theorem isRoute_host :
    IsRoute ("/apis/" ++ Host.apiVersion ++ "/namespaces/") "/baremetalhosts/" :=
  ⟨by cbv, by cbv, by cbv, _, rfl⟩

private theorem isRoute_secret : IsRoute "/api/v1/namespaces/" "/secrets/" :=
  ⟨by cbv, by cbv, by cbv, _, rfl⟩

theorem Slot.checkTarget {a : Slot} (h : IsNamed a.key) :
    Store.checkTarget a.target = .ok a.target ∧
      Store.checkTarget (a.target ++ "?") = .ok (a.target ++ "?") := by
  cases a with
  | config key => exact checkTarget_routed isRoute_config h
  | host key => exact checkTarget_routed isRoute_host h
  | secret key => exact checkTarget_routed isRoute_secret h

private theorem take_routed {start kind : String} {key : ObjectKey} (h : 7 ≤ start.toList.length) :
    (routed start kind key).toList.take 7 = start.toList.take 7 := by
  rw [toList_routed, List.take_append_of_le_length h]

private theorem take_target (a : Slot) : a.target.toList.take 7 = match a with
    | .config _ => ['/', 'a', 'p', 'i', 's', '/', 'r']
    | .host _ => ['/', 'a', 'p', 'i', 's', '/', 'm']
    | .secret _ => ['/', 'a', 'p', 'i', '/', 'v', '1'] := by
  cases a with
  | config key => exact (take_routed (by cbv)).trans (by cbv)
  | host key => exact (take_routed (by cbv)).trans (by cbv)
  | secret key => exact (take_routed (by cbv)).trans (by cbv)

/-- Different named objects have different targets. -/
theorem Slot.target_inj {a b : Slot} (ha : IsNamed a.key) (hb : IsNamed b.key)
    (h : a.target = b.target) : a = b := by
  have hstart : a.target.toList.take 7 = b.target.toList.take 7 := by rw [h]
  rw [take_target, take_target] at hstart
  cases a <;> cases b <;> try simp at hstart
  · exact congrArg Slot.config (routed_inj isRoute_config ha hb h)
  · exact congrArg Slot.host (routed_inj isRoute_host ha hb h)
  · exact congrArg Slot.secret (routed_inj isRoute_secret ha hb h)

private theorem pathOf_routed {start kind : String} (hroute : IsRoute start kind)
    (h : IsNamed key) : pathOf (routed start kind key ++ "?") = routed start kind key := by
  have hplain := List.all_eq_true.1 (plain_routed hroute h)
  have hquestion : "?".toList = ['?'] := rfl
  rw [pathOf, String.toList_append, hquestion, List.takeWhile_append_of_pos,
    List.takeWhile_cons_of_neg (by simp), List.append_nil]
  · exact String.ofList_toList
  · intro c hc
    simpa [isPlain] using (Bool.and_eq_true_iff.1 (hplain c hc)).2

theorem Slot.pathOf {a : Slot} (h : IsNamed a.key) : Store.pathOf (a.target ++ "?") = a.target := by
  cases a with
  | config key => exact pathOf_routed isRoute_config h
  | host key => exact pathOf_routed isRoute_host h
  | secret key => exact pathOf_routed isRoute_secret h

end Targets

section Metadata

variable {d : Value} {m : ObjectMeta}

/-- Whether the metadata of a document is the given one. -/
def Bears (d : Value) (m : ObjectMeta) : Prop :=
  ∃ ms members, d = .object ms ∧ valueOf "metadata" ms = some (.object members) ∧
    ObjectMeta.TakenFrom (Source.ofMembers members) m

private theorem Bears.metadataOf (h : Bears d m) : ∃ members,
    (∀ name, metadataOf name d = valueOf name members) ∧
      ObjectMeta.TakenFrom (Source.ofMembers members) m := by
  obtain ⟨ms, members, rfl, hmetadata, htaken⟩ := h
  exact ⟨members, fun name => by simp [Store.metadataOf, Value.members, hmetadata], htaken⟩

theorem Bears.versionOf (h : Bears d m) : Store.versionOf d = m.resourceVersion := by
  obtain ⟨members, hmember, htaken⟩ := h.metadataOf
  rw [Store.versionOf, hmember]
  rcases take_optional_cases htaken.resourceVersion with ⟨hnull, hnone⟩ | ⟨v, a, hv, -, ha, hsome⟩
  · rw [hnone]
    cases hv : valueOf "resourceVersion" members with
    | none => rfl
    | some v =>
      obtain rfl : v = .null := by simpa [hv] using hnull
      rfl
  · rw [hv, hsome]
    cases v with
    | string s => exact congrArg some (Except.ok.inj ha)
    | _ => cases ha

theorem Bears.isMarked (h : Bears d m) : Store.isMarked d = m.isDeleting := by
  obtain ⟨members, hmember, htaken⟩ := h.metadataOf
  rw [Store.isMarked, hmember, ObjectMeta.isDeleting]
  rcases take_optional_cases htaken.deletionTimestamp with
    ⟨hnull, hnone⟩ | ⟨v, a, hv, hnull, -, hsome⟩
  · rw [hnull, hnone]
    rfl
  · rw [hv, hsome, Option.getD_some, hnull]
    rfl

theorem Bears.isGuarded (h : Bears d m) : Store.isGuarded d = !m.finalizerList.isEmpty := by
  obtain ⟨members, hmember, htaken⟩ := h.metadataOf
  rw [Store.isGuarded, hmember, ObjectMeta.finalizerList]
  rcases take_optional_cases htaken.finalizers with ⟨hnull, hnone⟩ | ⟨v, list, hv, -, hlist, hsome⟩
  · rw [hnone]
    cases hv : valueOf "finalizers" members with
    | none => rfl
    | some v =>
      obtain rfl : v = .null := by simpa [hv] using hnull
      rfl
  · rw [hv, hsome]
    cases v with
    | array items =>
      cases items with
      | nil =>
        obtain rfl : [] = list := Except.ok.inj hlist
        rfl
      | cons v items =>
        simp only [Source.ofValue, Source.ofItems, Decoder.list, Decoder.items, bind,
          Except.bind] at hlist
        cases hv : Decoder.string (.ofValue v) with
        | error e => simp [hv] at hlist
        | ok text =>
          cases hitems : Decoder.items Decoder.string (Source.ofItems items) with
          | error e => simp [hv, hitems] at hlist
          | ok texts =>
            obtain rfl : text :: texts = list := by
              simpa [hv, hitems, pure, Except.pure, liftFault, onRead, Except.mapError] using hlist
            rfl
    | _ => cases hlist

theorem Bears.drops {d' : Value} {m' : ObjectMeta} (h : Bears d m) (h' : Bears d' m') :
    ApiServer.drops d d' =
      (m'.isDeleting && !m.finalizerList.isEmpty && m'.finalizerList.isEmpty) := by
  rw [ApiServer.drops, h.isGuarded, h'.isGuarded, h'.isMarked, Bool.not_not]

theorem bears_config {ms : Parts} {c : ClusterConfig}
    (h : ClusterConfig.form.decode (.ofValue (.object ms)) = .ok c) :
    Bears (.object ms) c.metadata := by
  obtain ⟨members, hmembers, htaken⟩ := ClusterConfig.metadata_of_decode h
  exact ⟨ms, members, rfl, hmembers, htaken⟩

theorem bears_host {ms : Parts} {h : Host}
    (hms : Host.form.decode (.ofValue (.object ms)) = .ok h) : Bears (.object ms) h.metadata := by
  obtain ⟨members, hmembers, htaken⟩ := Host.metadata_of_decode hms
  exact ⟨ms, members, rfl, hmembers, htaken⟩

end Metadata

section Calls

variable {i : Interface} {s : ApiServer} {a : Slot} {d change : Value}

/-- A call whose target can be sent is answered by the server. -/
theorem ApiServer.answer_eq (i : Interface) (s : ApiServer) {call : StoreCall} {q : ApiRequest}
    (hrequest : requestOf call = q) (htarget : checkTarget q.target = .ok q.target) :
    s.answer i call = (resultOf call (s.handle i q).1, (s.handle i q).2) := by
  have hsendable : sendable call = .ok q := by
    rw [sendable, hrequest, htarget]
    rfl
  rw [ApiServer.answer, hsendable]

theorem handle_getRequest (i : Interface) (target : String) (s : ApiServer) :
    s.handle i (getRequest target) = match s.objects.get? target with
      | none => (ApiServer.refuse i (getRequest target) absentReason 404, s)
      | some d => (.answered 200 (i.write d), s) := by
  have hverb : (getRequest target).verb = "GET" := rfl
  rw [ApiServer.handle, if_pos hverb]
  rfl

theorem handle_patchRequest (i : Interface) (ha : IsNamed a.key) (hchange : change.Fits maxDepth)
    (s : ApiServer) :
    s.handle i (patchRequest a.target change) =
      s.patch i (patchRequest a.target change) a.target change := by
  have hbody : Value.parse (patchRequest a.target change).body = .ok change := parse_text hchange
  have hpath : pathOf (patchRequest a.target change).target = a.target := Slot.pathOf ha
  have hverb : (patchRequest a.target change).verb ≠ "GET" := by
    show "PATCH" ≠ "GET"
    decide
  rw [ApiServer.handle, if_neg hverb, if_pos ⟨rfl, rfl⟩, hbody, hpath]

theorem ApiServer.answer_getRequest (i : Interface) (s : ApiServer) {call : StoreCall}
    (hrequest : requestOf call = getRequest a.target) (ha : IsNamed a.key) :
    s.answer i call = (resultOf call (s.handle i (getRequest a.target)).1,
      (s.handle i (getRequest a.target)).2) :=
  s.answer_eq i hrequest (Slot.checkTarget ha).1

theorem ApiServer.answer_patchRequest (i : Interface) (s : ApiServer) {call : StoreCall}
    (hrequest : requestOf call = patchRequest a.target change) (ha : IsNamed a.key)
    (hchange : change.Fits maxDepth) :
    s.answer i call =
      (resultOf call (s.patch i (patchRequest a.target change) a.target change).1,
        (s.patch i (patchRequest a.target change) a.target change).2) := by
  rw [s.answer_eq i hrequest (Slot.checkTarget ha).2, handle_patchRequest i ha hchange]

theorem objectOf_written {α : Type} {form : RecordForm α} {x : α} (hkept : i.keeps d)
    (hdecode : form.decode (.ofValue d) = .ok x) :
    objectOf form (.answered 200 (i.write d)) = .ok x := by
  have htext : form.decode.ofText (i.write d) = .ok x := by
    rw [Decoder.ofText, i.read_write d hkept]
    simp [bind, Except.bind, hdecode]
    rfl
  simp [objectOf, htext]

theorem optionalOf_lookup {α : Type} (form : RecordForm α) (i : Interface) (target : String)
    (s : ApiServer) {o : Option α}
    (h : Option.Rel (fun d x => i.keeps d ∧ form.decode (.ofValue d) = .ok x)
      (s.objects.get? target) o) :
    optionalOf form (s.handle i (getRequest target)).1 = .ok o ∧
      (s.handle i (getRequest target)).2 = s := by
  rw [handle_getRequest]
  cases hget : s.objects.get? target with
  | none =>
    rw [hget] at h
    cases h
    refine ⟨?_, rfl⟩
    rw [optionalOf, objectOf_refuse form i _ (.inl rfl)]
    rfl
  | some d =>
    rw [hget] at h
    cases h with
    | some hd =>
      refine ⟨?_, rfl⟩
      rw [optionalOf, objectOf_written hd.1 hd.2]

theorem patchedOf_absent {α : Type} (i : Interface) (change : Value) (form : RecordForm α)
    (kind : String) (key : ObjectKey) (q : ApiRequest) {target : String}
    (hget : s.objects.get? target = none) :
    (∃ r, patchedOf form kind key (s.patch i q target change).1 = .error (.api (.refused r)) ∧
      r.code = 404) ∧ (s.patch i q target change).2 = s := by
  rw [ApiServer.patch, hget]
  refine ⟨⟨⟨"Failure", i.explain q, absentReason, 404⟩, ?_, rfl⟩, rfl⟩
  rw [patchedOf, objectOf_refuse form i q (.inl rfl)]
  rfl

theorem patchedOf_stale {α : Type} (form : RecordForm α) (kind : String) (key : ObjectKey)
    (q : ApiRequest) {target : String} (hget : s.objects.get? target = some d) {expected : String}
    (hexpected : versionOf change = some expected) (hstale : versionOf d ≠ some expected) :
    patchedOf form kind key (s.patch i q target change).1 = .error (.conflict kind key.text) ∧
      (s.patch i q target change).2 = s := by
  have hany : ((versionOf change).any fun expected => versionOf d ≠ some expected) = true := by
    simp [hexpected, hstale]
  simp only [ApiServer.patch, hget, hany, if_true, and_true]
  rw [patchedOf, objectOf_refuse form i q (.inr rfl)]
  rfl

theorem ApiServer.keeps_patched (s : ApiServer) (hkept : i.keeps d) (hfits : change.Fits maxDepth) :
    i.keeps (s.patched i d change) :=
  i.keeps_merge _ _ (i.keeps_merge _ _ hkept hfits) (fits_metadataPatch none _ 124)

theorem patchedOf_current {α : Type} {form : RecordForm α} (kind : String) (key : ObjectKey)
    (q : ApiRequest) {target : String} (hget : s.objects.get? target = some d) {expected : String}
    (hexpected : versionOf change = some expected) (hcurrent : versionOf d = some expected) {x : α}
    (hkept : i.keeps d) (hfits : change.Fits maxDepth)
    (hdecode : form.decode (.ofValue (s.patched i d change)) = .ok x) :
    patchedOf form kind key (s.patch i q target change).1 = .ok () ∧
      (s.patch i q target change).2 = {
        objects := if ApiServer.drops d (s.patched i d change) then s.objects.erase target
          else s.objects.insert target (s.patched i d change)
        issued := s.issued + 1 } := by
  have hany : ((versionOf change).any fun expected => versionOf d ≠ some expected) = false := by
    simp [hexpected, hcurrent]
  have hafter : i.keeps (s.patched i d change) := s.keeps_patched hkept hfits
  simp only [ApiServer.patch, hget, hany, Bool.false_eq_true, if_false, and_true]
  rw [patchedOf, objectOf_written hafter hdecode]

end Calls

end Relocation.Store
