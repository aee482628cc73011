import Relocation.Proofs.FinalizerProtocol
import Relocation.Proofs.Patches
import Relocation.Proofs.Versions

/-!
Patches among writes of others. A version is given out once, so an object that bears the version
that a reconcile has read is the object that it has read, whatever was written in the meantime, also
when the object was taken away and made anew (`eq_of_isCurrent`). So every patch of a reconcile is
made for the object as it is stored, or it is refused, changes nothing and ends the reconcile
(`no_stale_patch`).
-/

set_option autoImplicit false

namespace Relocation

open Files (FileSystem)
open Store Program

/-- What a reconcile of a cluster in memory has done. -/
abbrev ClusterHistory := List (Event (Memory × FileSystem))

/-- Others who write to the cluster, and do with the files what they like. -/
def Writing (s t : Memory × FileSystem) : Prop := Writes s.1 t.1

/-- A cluster in memory to which others write at any time, with the requests of a program on
record. -/
def amidWrites (rule : ClusterHistory → Event (Memory × FileSystem) → Prop) :
    Surroundings (ClusterHistory × Memory × FileSystem) :=
  recordingAmid Writing (besideFiles Memory.answer) rule

/-- The one config that a history shows to have been read. -/
structure OnlyRead (key : ObjectKey) (c : ClusterConfig) (past : ClusterHistory) : Prop where
  read : ReadIn key c past
  only : ∀ c', ReadIn key c' past → c' = c

def HostReadIn (host : ObjectKey) (h : Host) (past : ClusterHistory) : Prop :=
  ∃ s, ⟨s, .store (.getHost host), .ok (some h)⟩ ∈ past

/-- The one host that a history shows to have been read. -/
structure OnlyHostRead (host : ObjectKey) (h : Host) (past : ClusterHistory) : Prop where
  read : HostReadIn host h past
  only : ∀ h', HostReadIn host h' past → h' = h

/-- The finalizers that a config gets next: a living config that lacks ours gets it at the end, and
one that is to be deleted loses it wherever it stands. -/
def NextFinalizers (c : ClusterConfig) (list : List String) : Prop :=
  (c.metadata.isDeleting = false ∧ ourFinalizer ∉ c.metadata.finalizerList ∧
      list = c.metadata.finalizerList ++ [ourFinalizer]) ∨
    (c.metadata.isDeleting = true ∧ ourFinalizer ∈ c.metadata.finalizerList ∧
      list = c.metadata.finalizerList.filter (· != ourFinalizer))

/-- What the host of a config shall be: it boots the image of a living config, and no image for one
that is to be deleted. -/
def HostSpec.next (s : HostSpec) (url : String) (c : ClusterConfig) : HostSpec :=
  if c.metadata.isDeleting then { s with image := none } else s.booting url

/-- A patch of the finalizers of a config was made for the config that was read and is stored, and
changed its finalizers only; a config that is left without any is gone. -/
structure FinalizersLanded (key : ObjectKey) (list : List String) (past : ClusterHistory)
    (m m' : Memory) : Prop where
  config : ∃ c, OnlyRead key c past ∧ m.configs.get? key = some c ∧ NextFinalizers c list ∧
    list.filter (· != ourFinalizer) = c.metadata.finalizerList.filter (· != ourFinalizer) ∧
    m'.configs = if list = [] then m.configs.erase key
      else m.configs.insert key (c.withFinalizers (some list) (some m'.version.repr))
  hosts : m'.hosts = m.hosts
  secrets : m'.secrets = m.secrets

/-- A patch of a host was made for the host that was read and is stored, as the config that was read
calls for, and changed the host only. -/
structure HostLanded (ctx : ReconcileContext) (key host : ObjectKey) (past : ClusterHistory)
    (m m' : Memory) : Prop where
  host : ∃ c r h, OnlyRead key c past ∧ c.spec.bareMetalHostRef = some r ∧ r.key = host ∧
    OnlyHostRead host h past ∧ m.hosts.get? host = some h ∧
    m'.hosts = m.hosts.insert host
      ⟨stamped h.metadata m'.version, h.spec.next (imageUrl ctx.serviceUrl key) c⟩
  configs : m'.configs = m.configs
  secrets : m'.secrets = m.secrets

/-- What comes of a patch: it lands, or it is refused and changes nothing. -/
inductive PatchResult (kind : String) (object : ObjectKey) (landed : Memory → Prop) (m : Memory) :
    Except Error Unit × Memory → Prop
  | landed {m' : Memory} (h : landed m') : PatchResult kind object landed m (.ok (), m')
  | conflict : PatchResult kind object landed m (.error (.conflict kind object.text), m)
  | missing : PatchResult kind object landed m (.error (.notFound kind object.text), m)

/-- Whether a patch was refused, and with which error. -/
def Event.Refused {σ : Type} (e : Event σ) (error : Error) : Prop :=
  match e with
  | ⟨_, .store (.patchFinalizers _ _ _), reply⟩ => reply = .error error
  | ⟨_, .store (.patchHost _ _ _), reply⟩ => reply = .error error
  | _ => False

/-- What is true of a request of a reconcile, after the requests that were made before. -/
structure Fresh (ctx : ReconcileContext) (key : ObjectKey) (past : ClusterHistory)
    (e : Event (Memory × FileSystem)) : Prop where
  reply : (besideFiles Memory.answer e.request e.state).1 = e.reply
  finalizers : ∀ k version list, e.request = .store (.patchFinalizers k version list) →
    k = key ∧ PatchResult "ClusterConfig" key (FinalizersLanded key list past e.state.1) e.state.1
      (e.state.1.answer (.patchFinalizers k version list))
  host : ∀ host version patch, e.request = .store (.patchHost host version patch) →
    PatchResult "BareMetalHost" host (HostLanded ctx key host past e.state.1) e.state.1
      (e.state.1.answer (.patchHost host version patch))
  unrefused : ∀ g ∈ past, ∀ error, ¬g.Refused error

section Versions

variable {α : Type} {metadata : α → ObjectMeta} {v v' : Nat} {t t' : Table ObjectKey α}
  {k : ObjectKey} {x x' : α}

/-- An object for which a patch of an older one would be applied is that one. -/
theorem eq_of_isCurrent (hfresh : Renewed metadata 0 v .empty t)
    (hlater : Renewed metadata v v' t t') (hx : t.get? k = some x) (hx' : t'.get? k = some x')
    (hcurrent : isCurrent (metadata x') (metadata x).resourceVersion = true) : x' = x := by
  rcases hlater.object k x' hx' with hsame | ⟨n', hn', -, hversion'⟩
  · exact Option.some.inj (hsame.symm.trans hx)
  · rcases hfresh.object k x hx with hnone | ⟨n, -, hn, hversion⟩
    · simp at hnone
    · rw [hversion] at hcurrent
      have hequal : (metadata x').resourceVersion = some n.repr := by
        simpa [isCurrent] using hcurrent
      have hnn' : n' = n := repr_inj (Option.some.inj (hversion'.symm.trans hequal))
      omega

end Versions

section Answers

variable {m : Memory} {key : ObjectKey} {c : ClusterConfig} {list : List String}
  {past : ClusterHistory}

private theorem hasFinalizer_iff :
    c.hasFinalizer = true ↔ ourFinalizer ∈ c.metadata.finalizerList := by
  simp [ClusterConfig.hasFinalizer]

private theorem deleting_of_next_nil (h : NextFinalizers c []) : c.metadata.isDeleting = true := by
  rcases h with ⟨-, -, hlist⟩ | ⟨hdeleting, -, -⟩
  · simp at hlist
  · exact hdeleting

private theorem foreign_of_next (h : NextFinalizers c list) :
    list.filter (· != ourFinalizer) = c.metadata.finalizerList.filter (· != ourFinalizer) := by
  rcases h with ⟨-, -, rfl⟩ | ⟨-, -, rfl⟩
  · simp
  · simp

private theorem patchFinalizers_result (hread : OnlyRead key c past) (hnext : NextFinalizers c list)
    (hcurrent : ∀ c', m.configs.get? key = some c' →
      isCurrent c'.metadata c.metadata.resourceVersion = true → c' = c) :
    PatchResult "ClusterConfig" key (FinalizersLanded key list past m) m
      (m.answer (.patchFinalizers key c.metadata.resourceVersion list)) := by
  cases hget : m.configs.get? key with
  | none =>
    simp only [Memory.answer, Memory.patchFinalizers, Memory.revise, hget, Memory.commit]
    exact .missing
  | some c' =>
    cases hversion : isCurrent c'.metadata c.metadata.resourceVersion with
    | false =>
      simp only [Memory.answer, Memory.patchFinalizers, Memory.revise, hget, hversion,
        Memory.commit]
      exact .conflict
    | true =>
      obtain rfl := hcurrent c' hget hversion
      have hempty : list = [] → c'.metadata.isDeleting = true := by
        rintro rfl
        exact deleting_of_next_nil hnext
      rw [answer_patchFinalizers_self hget hempty]
      exact .landed ⟨⟨c', hread, hget, hnext, foreign_of_next hnext, rfl⟩, rfl, rfl⟩

private theorem patchHost_result {ctx : ReconcileContext} {h : Host}
    {r : HostReference} {patch : HostPatch} (hread : OnlyRead key c past)
    (hreference : c.spec.bareMetalHostRef = some r) (hhost : OnlyHostRead r.key h past)
    (hpatch : patch.applyTo h.spec = h.spec.next (imageUrl ctx.serviceUrl key) c)
    (hcurrent : ∀ h', m.hosts.get? r.key = some h' →
      isCurrent h'.metadata h.metadata.resourceVersion = true → h' = h) :
    PatchResult "BareMetalHost" r.key (HostLanded ctx key r.key past m) m
      (m.answer (.patchHost r.key h.metadata.resourceVersion patch)) := by
  cases hget : m.hosts.get? r.key with
  | none =>
    simp only [Memory.answer, Memory.patchHost, Memory.revise, hget, Memory.commit]
    exact .missing
  | some h' =>
    cases hversion : isCurrent h'.metadata h.metadata.resourceVersion with
    | false =>
      simp only [Memory.answer, Memory.patchHost, Memory.revise, hget, hversion, Memory.commit]
      exact .conflict
    | true =>
      obtain rfl := hcurrent h' hget hversion
      rw [answer_patchHost_self patch hget, hpatch]
      exact .landed ⟨⟨c, r, h', hread, hreference, rfl, hhost, hget, rfl⟩, rfl, rfl⟩

end Answers

section Steps

variable {ctx : ReconcileContext} {key : ObjectKey} {c : ClusterConfig} {past : ClusterHistory}
  {m m' : Memory} {e : Event (Memory × FileSystem)} {s : Memory × FileSystem}

private def Plain : Request → Prop
  | .store (.getConfig _) | .store (.patchFinalizers _ _ _) | .store (.patchHost _ _ _) => False
  | _ => True

private def ReadsHost : Request → Prop
  | .store (.getHost _) => True
  | _ => False

/-- What a reconcile carries along once it has read a config: whoever may have written since, the
config is as it was read if its version is. -/
private structure Held (key : ObjectKey) (c : ClusterConfig) (past : ClusterHistory) (m : Memory) :
    Prop where
  reachable : m.Reachable
  read : OnlyRead key c past
  pinned : ∀ m', Writes m m' → ∀ c', m'.configs.get? key = some c' →
    isCurrent c'.metadata c.metadata.resourceVersion = true → c' = c
  unrefused : ∀ g ∈ past, ∀ error, ¬g.Refused error

private structure BeforeHost (key : ObjectKey) (c : ClusterConfig)
    (a : ClusterHistory × Memory × FileSystem) : Prop where
  held : Held key c a.1 a.2.1
  hostless : ∀ g ∈ a.1, ¬ReadsHost g.request

private structure HostHeld (key : ObjectKey) (c : ClusterConfig) (host : ObjectKey) (h : Host)
    (past : ClusterHistory) (m : Memory) : Prop where
  held : Held key c past m
  read : OnlyHostRead host h past
  pinned : ∀ m', Writes m m' → ∀ h', m'.hosts.get? host = some h' →
    isCurrent h'.metadata h.metadata.resourceVersion = true → h' = h

/-- How a part of a reconcile ends: with what the next part rests on, or with the error of the only
patch that was refused. -/
private def Onward {α : Type} (held : ClusterHistory × Memory × FileSystem → Prop) :
    Except Error α → ClusterHistory × Memory × FileSystem → Prop
  | .ok _, a => held a
  | .error error, a => ∀ g ∈ a.1, ∀ error', g.Refused error' → error' = error

private theorem writes_of_answer {q : Request} {reply : q.Reply} {t : Memory × FileSystem}
    (h : besideFiles Memory.answer q s = (reply, t)) : Writes s.1 t.1 := by
  obtain rfl : (besideFiles Memory.answer q s).2 = t := congrArg Prod.snd h
  cases q with
  | store call => exact .single (.call s.1 call)
  | file call => exact .refl
  | note notice => exact .refl

private theorem Held.writes (h : Held key c past m) (hwrites : Writes m m') :
    Held key c past m' where
  reachable := Relation.ReflTransGen.trans h.reachable hwrites
  read := h.read
  pinned m'' hwrites' := h.pinned m'' (hwrites.trans hwrites')
  unrefused := h.unrefused

private theorem onlyRead_append (h : OnlyRead key c past) (he : ¬e.request.ReadsConfig) :
    OnlyRead key c (past ++ [e]) := by
  obtain ⟨s, hs⟩ := h.read
  refine ⟨⟨s, List.mem_append_left _ hs⟩, ?_⟩
  rintro c' ⟨s', hs'⟩
  rcases List.mem_append.1 hs' with hmem | hmem
  · exact h.only c' ⟨s', hmem⟩
  · obtain rfl := List.mem_singleton.1 hmem
    exact absurd trivial he

private theorem Held.append (h : Held key c past m) (he : ¬e.request.ReadsConfig)
    (hrefused : ∀ error, ¬e.Refused error) : Held key c (past ++ [e]) m where
  reachable := h.reachable
  read := onlyRead_append h.read he
  pinned := h.pinned
  unrefused g hg := by
    rcases List.mem_append.1 hg with hg | hg
    · exact h.unrefused g hg
    · rwa [List.mem_singleton.1 hg]

private theorem Plain.not_refused (h : Plain e.request) (error : Error) : ¬e.Refused error := by
  obtain ⟨s, q, reply⟩ := e
  intro hrefused
  unfold Event.Refused at hrefused
  split at hrefused
  · rename_i heq
    cases heq
    exact h
  · rename_i heq
    cases heq
    exact h
  · exact hrefused

private theorem Plain.unread {q : Request} (h : Plain q) : ¬q.ReadsConfig := by
  intro hread
  unfold Request.ReadsConfig at hread
  split at hread
  · exact h
  · exact hread

private theorem fresh_of_unpatched
    (hreply : (besideFiles Memory.answer e.request e.state).1 = e.reply)
    (hunrefused : ∀ g ∈ past, ∀ error, ¬g.Refused error)
    (hfinalizers : ∀ k version list, e.request ≠ .store (.patchFinalizers k version list))
    (hhost : ∀ host version patch, e.request ≠ .store (.patchHost host version patch)) :
    Fresh ctx key past e where
  reply := hreply
  finalizers k version list hq := absurd hq (hfinalizers k version list)
  host host version patch hq := absurd hq (hhost host version patch)
  unrefused := hunrefused

private theorem Plain.fresh (h : Plain e.request)
    (hreply : (besideFiles Memory.answer e.request e.state).1 = e.reply)
    (hunrefused : ∀ g ∈ past, ∀ error, ¬g.Refused error) : Fresh ctx key past e := by
  refine fresh_of_unpatched hreply hunrefused ?_ ?_
  · intro k version list hq
    rw [hq] at h
    exact h
  · intro host version patch hq
    rw [hq] at h
    exact h

private theorem held_ask {α : Type} {q : Request} {next : q.Reply → Program α}
    {post : Except Error α → ClusterHistory × Memory × FileSystem → Prop}
    (h : Held key c past s.1) (hq : Plain q)
    (hnext : ∀ t reply u, Writes s.1 t.1 → besideFiles Memory.answer q t = (reply, u) →
      Held key c (past ++ [⟨t, q, reply⟩]) u.1 →
      (next reply).Keeps (amidWrites (Fresh ctx key)) post (past ++ [⟨t, q, reply⟩], u)) :
    (ask q next).Keeps (amidWrites (Fresh ctx key)) post (past, s) := by
  refine keeps_ask_amid fun t hst reply u hworld => ?_
  have hreply : (besideFiles Memory.answer q t).1 = reply := congrArg Prod.fst hworld
  have hu : Writes t.1 u.1 := writes_of_answer hworld
  have ht : Held key c past t.1 := h.writes hst
  have hlater : Held key c (past ++ [⟨t, q, reply⟩]) u.1 :=
    (ht.writes hu).append hq.unread fun error => Plain.not_refused hq error
  exact ⟨Plain.fresh hq hreply h.unrefused, hnext t reply u hst hworld hlater⟩

private theorem held_only {α : Type} {p : Program α}
    (hp : p.Only fun q => Plain q ∧ ¬ReadsHost q) (h : BeforeHost key c (past, s)) :
    p.Keeps (amidWrites (Fresh ctx key)) (fun _ => BeforeHost key c) (past, s) := by
  refine hp.keeps h ?_ ?_
  · rintro ⟨past, s⟩ ⟨_, t⟩ hbefore ⟨rfl, hst⟩
    exact ⟨hbefore.held.writes hst, hbefore.hostless⟩
  · rintro ⟨past, t⟩ q reply ⟨_, u⟩ hbefore ⟨hq, hhostless⟩ ⟨hworld, rfl⟩
    have hreply : (besideFiles Memory.answer q t).1 = reply := congrArg Prod.fst hworld
    have hu : Writes t.1 u.1 := writes_of_answer hworld
    refine ⟨Plain.fresh hq hreply hbefore.held.unrefused, ?_, ?_⟩
    · exact (hbefore.held.writes hu).append hq.unread fun error => Plain.not_refused hq error
    · intro g hg
      rcases List.mem_append.1 hg with hg | hg
      · exact hbefore.hostless g hg
      · rwa [List.mem_singleton.1 hg]

private theorem exporting_plain {dirs : ExportDirs} {q : Request} (h : q.Exporting dirs) :
    Plain q ∧ ¬ReadsHost q := by
  cases h <;> exact ⟨trivial, id⟩

private theorem removing_plain {dirs : ExportDirs} {q : Request} (h : q.Removing dirs) :
    Plain q ∧ ¬ReadsHost q := by
  cases h <;> exact ⟨trivial, id⟩

private theorem held_getHost {α : Type} {r : HostReference}
    {next : Except Error (Option Host) → Program α}
    {post : Except Error α → ClusterHistory × Memory × FileSystem → Prop}
    (h : BeforeHost key c (past, s))
    (hmissing : ∀ past' t, Held key c past' t.1 →
      (next (.ok none)).Keeps (amidWrites (Fresh ctx key)) post (past', t))
    (hfound : ∀ past' t host, HostHeld key c r.key host past' t.1 →
      (next (.ok (some host))).Keeps (amidWrites (Fresh ctx key)) post (past', t)) :
    (ask (.store (.getHost r.key)) next).Keeps (amidWrites (Fresh ctx key)) post (past, s) := by
  refine held_ask h.held trivial fun t reply u hst hworld hheld => ?_
  obtain ⟨rfl, rfl⟩ : Except.ok (t.1.hosts.get? r.key) = reply ∧ t = u := by
    obtain ⟨hreply, hu⟩ := Prod.ext_iff.1 hworld
    exact ⟨hreply, hu⟩
  cases hget : t.1.hosts.get? r.key with
  | none => exact hmissing _ _ (hget ▸ hheld)
  | some host =>
    rw [hget] at hheld
    refine hfound _ _ host ⟨hheld, ⟨⟨t, List.mem_concat_self⟩, ?_⟩, ?_⟩
    · rintro host' ⟨s', hmem⟩
      rcases List.mem_append.1 hmem with hmem | hmem
      · exact absurd trivial (h.hostless _ hmem)
      · have hequal := List.mem_singleton.1 hmem
        injection hequal with _ _ hreply
        simpa using hreply
    · intro m' hwrites h' hget' hcurrent
      have hreachable : t.1.Reachable := (h.held.writes hst).reachable
      exact eq_of_isCurrent hreachable.advances.hosts hwrites.advances.hosts hget hget' hcurrent

private theorem held_note {α : Type} {host : ObjectKey} {found : Host} {notice : Notice}
    {next : Unit → Program α}
    {post : Except Error α → ClusterHistory × Memory × FileSystem → Prop}
    (h : HostHeld key c host found past s.1)
    (hnext : ∀ past' t, HostHeld key c host found past' t.1 →
      (next ()).Keeps (amidWrites (Fresh ctx key)) post (past', t)) :
    (ask (.note notice) next).Keeps (amidWrites (Fresh ctx key)) post (past, s) := by
  refine held_ask h.held trivial fun t reply u hst hworld hheld => hnext _ u ⟨hheld, ?_, ?_⟩
  · obtain ⟨s', hs'⟩ := h.read.read
    refine ⟨⟨s', List.mem_append_left _ hs'⟩, ?_⟩
    rintro host' ⟨s'', hmem⟩
    rcases List.mem_append.1 hmem with hmem | hmem
    · exact h.read.only host' ⟨s'', hmem⟩
    · exact nomatch List.mem_singleton.1 hmem
  · intro m' hwrites
    exact h.pinned m' (Relation.ReflTransGen.trans hst ((writes_of_answer hworld).trans hwrites))

private theorem onward_patch {call : StoreCall} {held : ClusterHistory × Memory × FileSystem → Prop}
    {reply : Except Error call.Result} {u : Memory × FileSystem} {t : Memory × FileSystem}
    (hcall : ∀ error, Event.Refused ⟨t, .store call, reply⟩ error → reply = .error error)
    (hunrefused : ∀ g ∈ past, ∀ error, ¬g.Refused error)
    (hheld : (∀ error, ¬Event.Refused ⟨t, .store call, reply⟩ error) →
      held (past ++ [⟨t, .store call, reply⟩], u))
    (hok : ∀ x, reply = .ok x → ∀ error, ¬Event.Refused ⟨t, .store call, reply⟩ error) :
    Onward held reply (past ++ [⟨t, .store call, reply⟩], u) := by
  cases reply with
  | ok x => exact hheld (hok x rfl)
  | error error =>
    intro g hg error' hrefused
    rcases List.mem_append.1 hg with hg | hg
    · exact absurd hrefused (hunrefused g hg error')
    · obtain rfl := List.mem_singleton.1 hg
      exact (Except.error.inj (hcall error' hrefused)).symm

private theorem held_patchHost {r : HostReference} {host : Host} {patch : HostPatch}
    (h : HostHeld key c r.key host past s.1) (hreference : c.spec.bareMetalHostRef = some r)
    (hpatch : patch.applyTo host.spec = host.spec.next (imageUrl ctx.serviceUrl key) c) :
    (store (.patchHost r.key host.metadata.resourceVersion patch)).Keeps
      (amidWrites (Fresh ctx key)) (Onward fun a => Held key c a.1 a.2.1) (past, s) := by
  refine keeps_ask_amid fun t hst reply u hworld => ⟨?_, ?_⟩
  · refine ⟨congrArg Prod.fst hworld, ?_, ?_, h.held.unrefused⟩
    · intro k version list hq
      cases hq
    · intro host' version patch' hq
      cases hq
      exact patchHost_result h.held.read hreference h.read hpatch (h.pinned t.1 hst)
  · have hu : Writes t.1 u.1 := writes_of_answer hworld
    refine onward_patch (fun _ => id) h.held.unrefused (fun hnot => ?_) ?_
    · exact ((h.held.writes hst).writes hu).append id hnot
    · rintro x rfl error hrefused
      exact nomatch hrefused

private theorem held_patchFinalizers {list : List String} (h : Held key c past s.1)
    (hkey : c.key = key) (hnext : NextFinalizers c list) :
    (store (.patchFinalizers c.key c.metadata.resourceVersion list)).Keeps
      (amidWrites (Fresh ctx key)) (Onward fun a => Held key c a.1 a.2.1) (past, s) := by
  refine keeps_ask_amid fun t hst reply u hworld => ⟨?_, ?_⟩
  · refine ⟨congrArg Prod.fst hworld, ?_, ?_, h.unrefused⟩
    · intro k version list hq
      cases hq
      rw [hkey]
      exact ⟨rfl, patchFinalizers_result h.read hnext (h.pinned t.1 hst)⟩
    · intro host' version patch' hq
      cases hq
  · have hu : Writes t.1 u.1 := writes_of_answer hworld
    refine onward_patch (fun _ => id) h.unrefused (fun hnot => ?_) ?_
    · exact ((h.writes hst).writes hu).append id hnot
    · rintro x rfl error hrefused
      exact nomatch hrefused

private theorem Held.unbroken (h : Held key c past s.1) (error : Error) :
    ∀ g ∈ past, ∀ error', g.Refused error' → error' = error :=
  fun g hg error' hrefused => absurd hrefused (h.unrefused g hg error')

private theorem Held.onward {α : Type} (h : Held key c past s.1) (result : Except Error α) :
    Onward (fun a => Held key c a.1 a.2.1) result (past, s) := by
  cases result with
  | ok x => exact h
  | error error => exact h.unbroken error

private theorem held_setImage {r : HostReference} (h : BeforeHost key c (past, s))
    (hreference : c.spec.bareMetalHostRef = some r) (halive : c.metadata.isDeleting = false) :
    (setImage r (imageUrl ctx.serviceUrl key)).Keeps (amidWrites (Fresh ctx key))
      (Onward fun a => Held key c a.1 a.2.1) (past, s) := by
  refine held_getHost h (fun past t hheld => hheld.onward _) fun past t host hheld => ?_
  cases hempty : (HostPatch.bootFrom host.spec (imageUrl ctx.serviceUrl key)).isEmpty with
  | true =>
    simp only [bind_def, Program.bind, hempty, if_true]
    exact hheld.held.onward _
  | false =>
    simp only [bind_def, Program.bind, hempty]
    refine held_note hheld fun past t hheld => keeps_bind.2 ?_
    refine (held_patchHost hheld hreference ?_).mono ?_
    · rw [applyTo_bootFrom, HostSpec.next, halive]
      rfl
    · rintro (error | x) a honward
      · exact honward
      · exact Held.onward honward _

private theorem held_clearImage {r : HostReference} (h : BeforeHost key c (past, s))
    (hreference : c.spec.bareMetalHostRef = some r) (hdeleting : c.metadata.isDeleting = true) :
    (clearImage r).Keeps (amidWrites (Fresh ctx key))
      (Onward fun a => Held key c a.1 a.2.1) (past, s) := by
  refine held_getHost h (fun past t hheld => ?_) fun past t host hheld => ?_
  · exact held_ask hheld trivial fun _ _ _ _ _ hheld => hheld.onward _
  · cases hclear : host.spec.image.isNone with
    | true =>
      simp only [bind_def, Program.bind, hclear, if_true]
      exact hheld.held.onward _
    | false =>
      simp only [bind_def, Program.bind, hclear]
      refine held_note hheld fun past t hheld => keeps_bind.2 ?_
      refine (held_patchHost hheld hreference ?_).mono ?_
      · simp [HostPatch.applyTo, HostSpec.next, hdeleting]
      · rintro (error | x) a honward
        · exact honward
        · exact Held.onward honward _

private theorem held_releaseHost (h : BeforeHost key c (past, s))
    (hdeleting : c.metadata.isDeleting = true) :
    (releaseHost c).Keeps (amidWrites (Fresh ctx key)) (Onward fun a => Held key c a.1 a.2.1)
      (past, s) := by
  unfold releaseHost
  cases hreference : c.spec.bareMetalHostRef with
  | none => exact h.held.onward _
  | some r =>
    refine keeps_bind.2 ((held_clearImage h hreference hdeleting).mono ?_)
    rintro (error | cleanup) ⟨past', t⟩ honward
    · exact honward
    · have hheld : Held key c past' t.1 := honward
      cases cleanup with
      | missing => exact held_ask hheld trivial fun _ _ _ _ _ hheld => hheld.onward _
      | cleared => exact hheld.onward (.ok ())
      | alreadyClear => exact hheld.onward (.ok ())

private theorem held_releaseFinalizer (h : Held key c past s.1) (hkey : c.key = key)
    (hdeleting : c.metadata.isDeleting = true) (hguarded : c.hasFinalizer = true) :
    (releaseFinalizer c).Keeps (amidWrites (Fresh ctx key))
      (fun result a => Onward (fun a => Held key c a.1 a.2.1) result a ∧ result ≠ .ok .proceed)
      (past, s) := by
  refine held_ask h trivial fun t _ u _ _ hheld => keeps_bind.2 ?_
  have hnext : NextFinalizers c (c.metadata.finalizerList.filter (· != ourFinalizer)) :=
    .inr ⟨hdeleting, hasFinalizer_iff.1 hguarded, rfl⟩
  refine (held_patchFinalizers hheld hkey hnext).mono ?_
  rintro (error | x) a honward
  · exact ⟨honward, by simp⟩
  · exact ⟨Held.onward honward (.ok (LifecycleStep.halt .settled)), by simp⟩

private theorem held_terminate (h : BeforeHost key c (past, s)) (hkey : c.key = key)
    (hdeleting : c.metadata.isDeleting = true) :
    (terminate ctx.dataDir c).Keeps (amidWrites (Fresh ctx key))
      (fun result a => Onward (fun a => Held key c a.1 a.2.1) result a ∧ result ≠ .ok .proceed)
      (past, s) := by
  unfold terminate
  cases hguarded : c.hasFinalizer with
  | false =>
    exact ⟨h.held.onward (.ok (LifecycleStep.halt .settled)), by simp⟩
  | true =>
    have hquiet := (removeExport_only ctx.dataDir c.key).mono fun _ => removing_plain
    refine keeps_bind.2 ((held_only hquiet h).mono ?_)
    rintro (error | removed) ⟨past1, s1⟩ h1
    · exact ⟨h1.held.unbroken error, by simp⟩
    · cases hrequeue : removed.isRequeue with
      | true =>
        simp only [Then, hrequeue, if_true]
        exact ⟨h1.held.onward (.ok (LifecycleStep.halt removed)), by simp⟩
      | false =>
        simp only [Then, hrequeue]
        refine keeps_bind.2 ((held_releaseHost h1 hdeleting).mono ?_)
        rintro (error | x) ⟨past2, s2⟩ honward
        · exact ⟨honward, by simp⟩
        · exact held_releaseFinalizer honward hkey hdeleting hguarded

private theorem held_ensureFinalizer (h : BeforeHost key c (past, s)) (hkey : c.key = key)
    (halive : c.metadata.isDeleting = false) :
    (ensureFinalizer c).Keeps (amidWrites (Fresh ctx key))
      (fun result a => Onward (fun a => Held key c a.1 a.2.1) result a ∧
        (result = .ok .proceed → BeforeHost key c a)) (past, s) := by
  unfold ensureFinalizer
  cases hguarded : c.hasFinalizer with
  | true => exact ⟨h.held.onward _, fun _ => h⟩
  | false =>
    refine held_ask h.held trivial fun t _ u _ _ hheld => keeps_bind.2 ?_
    have hnext : NextFinalizers c (c.metadata.finalizerList ++ [ourFinalizer]) :=
      .inl ⟨halive, fun hmem => by simp [hasFinalizer_iff.2 hmem] at hguarded, rfl⟩
    refine (held_patchFinalizers hheld hkey hnext).mono ?_
    rintro (error | x) a honward
    · exact ⟨honward, by simp⟩
    · exact ⟨Held.onward honward _, by simp⟩

private theorem held_syncHost (h : BeforeHost key c (past, s))
    (halive : c.metadata.isDeleting = false) :
    (syncHost ctx.serviceUrl key c).Keeps (amidWrites (Fresh ctx key))
      (Onward fun a => Held key c a.1 a.2.1) (past, s) := by
  unfold syncHost
  cases hreference : c.spec.bareMetalHostRef with
  | none => exact h.held.onward _
  | some r =>
    refine keeps_bind.2 ((held_setImage h hreference halive).mono ?_)
    rintro (error | x) a honward
    · exact honward
    · exact Held.onward honward (.ok ())

private theorem held_converge (h : BeforeHost key c (past, s))
    (halive : c.metadata.isDeleting = false) :
    (converge ctx key c).Keeps (amidWrites (Fresh ctx key))
      (Onward fun a => Held key c a.1 a.2.1) (past, s) := by
  have hquiet := (exportConfig_only ctx.dataDir c).mono fun _ => exporting_plain
  refine keeps_bind.2 ((held_only hquiet h).mono ?_)
  rintro (error | exported) ⟨past1, s1⟩ h1
  · exact h1.held.unbroken error
  · cases hrequeue : exported.isRequeue with
    | true =>
      simp only [Then, hrequeue, if_true]
      exact h1.held.onward _
    | false =>
      simp only [Then, hrequeue]
      refine keeps_bind.2 ((held_syncHost h1 halive).mono ?_)
      rintro (error | x) a honward
      · exact honward
      · exact held_ask honward trivial fun _ _ _ _ _ hheld => hheld.onward _

private theorem held_handle (h : BeforeHost key c (past, s)) (hkey : c.key = key) :
    (lifecycleStep ctx.dataDir c >>= fun
      | .halt outcome => return outcome
      | .proceed => converge ctx key c).Keeps (amidWrites (Fresh ctx key))
      (Onward fun a => Held key c a.1 a.2.1) (past, s) := by
  refine keeps_bind.2 ?_
  unfold lifecycleStep
  cases hdeleting : c.metadata.isDeleting with
  | true =>
    refine (held_terminate h hkey hdeleting).mono ?_
    rintro (error | step) ⟨past', t⟩ ⟨honward, hhalt⟩
    · exact honward
    · cases step with
      | halt outcome => exact Held.onward honward (.ok outcome)
      | proceed => exact absurd rfl hhalt
  | false =>
    refine (held_ensureFinalizer h hkey hdeleting).mono ?_
    rintro (error | step) ⟨past', t⟩ ⟨honward, hproceed⟩
    · exact honward
    · cases step with
      | halt outcome => exact Held.onward honward (.ok outcome)
      | proceed => exact held_converge (hproceed rfl) hdeleting

private def opening (key : ObjectKey) (s t : Memory × FileSystem)
    (found : Except Error (Option ClusterConfig)) : ClusterHistory :=
  [⟨s, .note .reconcileStarted, ()⟩, ⟨t, .store (.getConfig key), found⟩]

private theorem opening_unrefused {t : Memory × FileSystem}
    {found : Except Error (Option ClusterConfig)} :
    ∀ g ∈ opening key s t found, ∀ error, ¬g.Refused error := by
  intro g hg error hrefused
  simp only [opening, List.mem_cons, List.not_mem_nil, or_false] at hg
  rcases hg with rfl | rfl
  · exact hrefused
  · exact hrefused

private theorem known_of_found {t : Memory × FileSystem} (ht : t.1.Reachable)
    (hget : t.1.configs.get? key = some c) :
    BeforeHost key c (opening key s t (.ok (some c)), t) := by
  refine ⟨⟨ht, ⟨⟨t, by simp [opening]⟩, ?_⟩, ?_, opening_unrefused⟩, ?_⟩
  · rintro c' ⟨s', hmem⟩
    simp only [opening, List.mem_cons, List.not_mem_nil, or_false] at hmem
    rcases hmem with hmem | hmem
    · exact nomatch hmem
    · injection hmem with _ _ hreply
      simpa using hreply
  · intro m' hwrites c' hget' hcurrent
    exact eq_of_isCurrent ht.advances.configs hwrites.advances.configs hget hget' hcurrent
  · intro g hg
    simp only [opening, List.mem_cons, List.not_mem_nil, or_false] at hg
    rcases hg with rfl | rfl
    · exact id
    · exact id

private theorem fresh_reconcile (hs : s.1.Reachable) :
    (reconcile ctx key).Keeps (amidWrites (Fresh ctx key))
      (fun result a => ∀ g ∈ a.1, ∀ error, g.Refused error → result = .error error) ([], s) := by
  refine keeps_ask_amid fun s1 hs1 reply1 u1 hworld1 => ⟨?_, ?_⟩
  · exact Plain.fresh trivial (congrArg Prod.fst hworld1) (by simp)
  · refine keeps_ask_amid fun s2 hs2 found u2 hworld2 => ⟨?_, ?_⟩
    · refine fresh_of_unpatched (congrArg Prod.fst hworld2) ?_ (by simp) (by simp)
      intro g hg error
      obtain rfl := List.mem_singleton.1 hg
      exact id
    · obtain ⟨hfound, hu⟩ := Prod.ext_iff.1 hworld2
      obtain rfl : Except.ok (s2.1.configs.get? key) = found := hfound
      obtain rfl : s2 = u2 := hu
      have hreachable : s2.1.Reachable :=
        Relation.ReflTransGen.trans hs (hs1.trans ((writes_of_answer hworld1).trans hs2))
      cases hget : s2.1.configs.get? key with
      | none => exact fun g hg error hrefused => absurd hrefused (opening_unrefused g hg error)
      | some c =>
        have hkey : c.key = key := hreachable.keyed key c hget
        refine (held_handle (known_of_found (s := s1) hreachable hget) hkey).mono ?_
        rintro (error | outcome) a honward g hg error' hrefused
        · rw [honward g hg error' hrefused]
        · exact absurd hrefused (Held.unrefused honward g hg error')

end Steps

/-- Whatever others write to a cluster while a reconcile of a key is under way, and at whatever
time, also if they take objects away and make them anew: every patch of the reconcile is made for
the object that it has read and that is stored, or it is refused with a conflict or because the
object is missing, changes nothing, is the last request and ends the reconcile with that error. -/
theorem no_stale_patch {ctx : ReconcileContext} {key : ObjectKey} {s t : Memory × FileSystem}
    {result : Except Error Outcome} {history : ClusterHistory} (hs : s.1.Reachable)
    (hcourse : (reconcile ctx key).Course (amidWrites fun _ _ => True) ([], s) result (history, t))
    (before : ClusterHistory) (e : Event (Memory × FileSystem)) (after : ClusterHistory)
    (hsplit : history = before ++ e :: after) :
    Fresh ctx key before e ∧ ∀ error, e.Refused error → after = [] ∧ result = .error error := by
  obtain ⟨⟨new, hnew, hfresh⟩, hresult⟩ := (fresh_reconcile hs).recorded hcourse
  obtain rfl : history = new := hnew
  refine ⟨hfresh before e after hsplit, fun error hrefused => ⟨?_, ?_⟩⟩
  · cases after with
    | nil => rfl
    | cons g rest =>
      -- A request after a refused patch would not be fresh.
      have hg := hfresh (before ++ [e]) g rest (by simp [hsplit])
      exact absurd hrefused (hg.unrefused e (by simp) error)
  · exact hresult e (by simp [hsplit]) error hrefused

private def newcomer : ClusterConfig where
  metadata := { name := some "site", space := some "edge" }
  spec := { relocation := { domain := "example.com" } }

private def firstState : Memory × FileSystem := (({} : Memory).insertConfig newcomer, {})

private def anewState : Memory × FileSystem :=
  ((firstState.1.deleteConfig default ⟨"edge", "site"⟩).insertConfig newcomer, {})

private def decidedHistory : ClusterHistory :=
  [⟨firstState, .note .reconcileStarted, ()⟩,
    ⟨firstState, .store (.getConfig ⟨"edge", "site"⟩),
      .ok (firstState.1.configs.get? ⟨"edge", "site"⟩)⟩,
    ⟨firstState, .note (.finalizerAdded ⟨"edge", "site"⟩), ()⟩]

private def latePatch : Event (Memory × FileSystem) :=
  ⟨anewState, .store (.patchFinalizers ⟨"edge", "site"⟩ (some (1).repr) [ourFinalizer]),
    .error (.conflict "ClusterConfig" "edge/site")⟩

private theorem course_ask {α : Type} {q : Request} {next : q.Reply → Program α}
    {past : ClusterHistory} {s t u : Memory × FileSystem} {reply : q.Reply}
    {result : Except Error α} {b : ClusterHistory × Memory × FileSystem} (hst : Writing s t)
    (hworld : besideFiles Memory.answer q t = (reply, u))
    (hnext : (next reply).Course (amidWrites fun _ _ => True) (past ++ [⟨t, q, reply⟩], u)
      result b) :
    (ask q next).Course (amidWrites fun _ _ => True) (past, s) result b :=
  .ask (t := (past, t)) ⟨rfl, hst⟩ ⟨hworld, rfl⟩ hnext

private theorem course_latePatch :
    (reconcile sampleContext ⟨"edge", "site"⟩).Course (amidWrites fun _ _ => True)
      ([], firstState) (.error (.conflict "ClusterConfig" "edge/site"))
      (decidedHistory ++ latePatch :: [], anewState) := by
  have hanew : Writing firstState anewState :=
    .tail (.single (.deleteConfig _ default ⟨"edge", "site"⟩)) (.insertConfig _ newcomer)
  exact course_ask .refl rfl (course_ask .refl rfl (course_ask .refl rfl
    (course_ask hanew rfl .done)))

/-- A config that is taken away and made anew between its look-up and the patch of its finalizers
does not get the finalizer. -/
theorem no_stale_patch_anew :
    firstState.1.Reachable ∧ latePatch.Refused (.conflict "ClusterConfig" "edge/site") ∧
      Fresh sampleContext ⟨"edge", "site"⟩ decidedHistory latePatch := by
  have hfirst : firstState.1.Reachable := .single (.insertConfig _ newcomer)
  exact ⟨hfirst, rfl, (no_stale_patch hfirst course_latePatch decidedHistory latePatch [] rfl).1⟩

end Relocation
