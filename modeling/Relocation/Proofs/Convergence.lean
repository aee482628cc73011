import Relocation.Proofs.History
import Relocation.Proofs.Partway

/-!
A reconcile forgets failures. However often reconciles of a config were cut short by a failing store
or by others who held the lock of its export, two undisturbed reconciles at most complete what is
missing. They come to the same tree, finalizers and host as if nothing had failed
(`settles_after_disturbances`).
-/

set_option autoImplicit false

namespace Relocation

open Files (FileSystem Location Look)
open Files.FileSystem (Forward)
open Program Store

/-- How a request is answered where any store call may fail with any error, before or after it took
effect. -/
inductive Faulty : Memory × FileSystem → (q : Request) → q.Reply → Memory × FileSystem → Prop
  | answered (q : Request) (s : Memory × FileSystem) :
      Faulty s q (besideFiles Memory.answer q s).1 (besideFiles Memory.answer q s).2
  | refused (call : StoreCall) (e : Error) (s : Memory × FileSystem) :
      Faulty s (.store call) (.error e) s
  | lost (call : StoreCall) (e : Error) (s : Memory × FileSystem) :
      Faulty s (.store call) (.error e) ((s.1.answer call).2, s.2)

/-- The surroundings of a disturbed reconcile. -/
def disturbance (ctx : ReconcileContext) (k : ObjectKey) : Surroundings (Memory × FileSystem) where
  others s t := s.1 = t.1 ∧ Contention (ctx.lockPath k) s.2 t.2
  answers := Faulty
  allowed _ _ _ _ := True

/-- The states after any number of disturbed reconciles. -/
inductive Disturbed (ctx : ReconcileContext) (k : ObjectKey) (s : Memory × FileSystem) :
    Memory × FileSystem → Prop
  | none : Disturbed ctx k s s
  | reconcile {t u : Memory × FileSystem} {r : Except Error Outcome} : Disturbed ctx k s t →
      (reconcile ctx k).Course (disturbance ctx k) t r u → Disturbed ctx k s u
  | contention {t : Memory × FileSystem} {fs : FileSystem} : Disturbed ctx k s t →
      Contention (ctx.lockPath k) t.2 fs → Disturbed ctx k s (t.1, fs)

/-- An undisturbed reconcile. -/
def reconciled (ctx : ReconcileContext) (k : ObjectKey) (s : Memory × FileSystem) :
    Except Error Outcome × (Memory × FileSystem) :=
  (reconcile ctx k).run (besideFiles Memory.answer) s

/-- An undisturbed reconcile, and another one if it asks for one at once. -/
def settle (ctx : ReconcileContext) (k : ObjectKey) (s : Memory × FileSystem) :
    Except Error Outcome × (Memory × FileSystem) :=
  match reconciled ctx k s with
  | (.ok .requeueNow, t) => reconciled ctx k t
  | r => r

/-- The surroundings of a reconcile, disturbed ones unless they are calm. -/
def weather (ctx : ReconcileContext) (k : ObjectKey) (calm : Prop) :
    Surroundings (Memory × FileSystem) where
  others s t := (disturbance ctx k).others s t ∧ (calm → s = t)
  answers s q reply t := Faulty s q reply t ∧ (calm → besideFiles Memory.answer q s = (reply, t))
  allowed _ _ _ _ := True

/-- How a part of a reconcile ends: as it should, or with an error that calm weather does not
bring. -/
def Ends {α : Type} (ctx : ReconcileContext) (k : ObjectKey) (c : ClusterConfig)
    (s : Memory × FileSystem) (calm : Prop) (good : α → Memory × FileSystem → Prop) :
    Except Error α → Memory × FileSystem → Prop
  | .ok a, t => good a t
  | .error _, t => ¬calm ∧ Partway ctx k c s t

section Weather

variable {ctx : ReconcileContext} {k : ObjectKey} {c : ClusterConfig} {s t u : Memory × FileSystem}
  {calm : Prop} {α β : Type}

private theorem ends_bind {p : Program α} {f : α → Program β}
    {good : α → Memory × FileSystem → Prop} {good' : β → Memory × FileSystem → Prop}
    (hp : p.Keeps (weather ctx k calm) (Ends ctx k c s calm good) t)
    (hf : ∀ a u, good a u → (f a).Keeps (weather ctx k calm) (Ends ctx k c s calm good') u) :
    (p >>= f).Keeps (weather ctx k calm) (Ends ctx k c s calm good') t := by
  refine keeps_bind.2 (hp.mono ?_)
  rintro (e | a) u hu
  · exact hu
  · exact hf a u hu

private theorem reply_of_file {call : FileCall} {reply : Except Files.IoError call.Result}
    (h : (weather ctx k calm).answers t (.file call) reply u) :
    reply = (t.2.answer call).1 ∧ u = (t.1, (t.2.answer call).2) := by
  obtain ⟨hfaulty, -⟩ := h
  cases hfaulty
  exact ⟨rfl, rfl⟩

private theorem reply_of_note {notice : Notice} {reply : Unit}
    (h : (weather ctx k calm).answers t (.note notice) reply u) : u = t := by
  obtain ⟨hfaulty, -⟩ := h
  cases hfaulty
  rfl

private theorem reply_of_store {call : StoreCall} {reply : Except Error call.Result}
    (h : (weather ctx k calm).answers t (.store call) reply u) :
    (reply = (t.1.answer call).1 ∧ u = ((t.1.answer call).2, t.2)) ∨
      (∃ e, reply = .error e ∧ (calm → (t.1.answer call).1 = .error e)) ∧
        (u = t ∨ u = ((t.1.answer call).2, t.2)) := by
  obtain ⟨hfaulty, hcalm⟩ := h
  cases hfaulty with
  | answered => exact .inl ⟨rfl, rfl⟩
  | refused call e => exact .inr ⟨⟨e, rfl, fun h => congrArg Prod.fst (hcalm h)⟩, .inl rfl⟩
  | lost call e => exact .inr ⟨⟨e, rfl, fun h => congrArg Prod.fst (hcalm h)⟩, .inr rfl⟩

/-- What has become of a state when a request is made, after others had their turn. -/
private structure Waited (ctx : ReconcileContext) (k : ObjectKey) (c : ClusterConfig)
    (s : Memory × FileSystem) (calm : Prop) (t u : Memory × FileSystem) : Prop where
  partway : Partway ctx k c s u
  forward : Forward (goalOf ctx k c s) t.2 u.2
  store : u.1 = t.1
  calm : calm → u = t

private theorem Partway.others (h : Partway ctx k c s t) (hsupplied : Supplied ctx k c s)
    (ho : (weather ctx k calm).others t u) : Waited ctx k c s calm t u := by
  obtain ⟨⟨hm, hc⟩, hcalm⟩ := ho
  have hforward := h.contention hsupplied hc
  have hu : u = (t.1, u.2) := Prod.ext hm.symm rfl
  refine ⟨?_, hforward, hm.symm, fun h => (hcalm h).symm⟩
  rw [hu]
  exact h.step hforward

private theorem store_ends (hsupplied : Supplied ctx k c s) (call : StoreCall)
    {good : call.Result → Memory × FileSystem → Prop} (ht : Partway ctx k c s t)
    (hcall : ∀ u, Waited ctx k c s calm t u → ∃ r m, u.1.answer call = (.ok r, m) ∧
      Partway ctx k c s (m, u.2) ∧ good r (m, u.2)) :
    (Program.store call).Keeps (weather ctx k calm) (Ends ctx k c s calm good) t := by
  intro a ha reply b hb
  have hwaited := ht.others hsupplied ha
  obtain ⟨r, m, hanswer, hpartway, hgood⟩ := hcall a hwaited
  refine ⟨trivial, ?_⟩
  rcases reply_of_store hb with ⟨rfl, rfl⟩ | ⟨⟨e, rfl, hcalm⟩, hu⟩
  · rw [hanswer]
    exact hgood
  · refine ⟨fun h => ?_, ?_⟩
    · have herror := hcalm h
      rw [hanswer] at herror
      cases herror
    · rw [hanswer] at hu
      rcases hu with rfl | rfl
      · exact hwaited.partway
      · exact hpartway

private theorem read_ends (hsupplied : Supplied ctx k c s) (call : StoreCall) {r : call.Result}
    (ht : Partway ctx k c s t) (hcall : t.1.answer call = (.ok r, t.1)) :
    (Program.store call).Keeps (weather ctx k calm)
      (Ends ctx k c s calm fun r' u => r' = r ∧ Waited ctx k c s calm t u) t := by
  refine store_ends hsupplied call ht fun u hu => ⟨r, u.1, ?_, hu.partway, rfl, hu⟩
  rw [hu.store]
  exact hcall

private theorem note_ends (hsupplied : Supplied ctx k c s) (notice : Notice)
    (ht : Partway ctx k c s t) :
    (Program.note notice).Keeps (weather ctx k calm)
      (Ends ctx k c s calm fun _ u => Waited ctx k c s calm t u) t := by
  intro a ha reply b hb
  obtain rfl := reply_of_note hb
  exact ⟨trivial, ht.others hsupplied ha⟩

private def Kept (ctx : ReconcileContext) (k : ObjectKey) (c : ClusterConfig)
    (s : Memory × FileSystem) (calm : Prop) (t : Memory × FileSystem) : Prop :=
  Partway ctx k c s t ∧ (calm → Unlocked ctx.dataDir k t.2)

private theorem Kept.waited (h : Kept ctx k c s calm t) (hu : Waited ctx k c s calm t u) :
    Kept ctx k c s calm u := by
  refine ⟨hu.partway, fun hcalm => ?_⟩
  rw [hu.calm hcalm]
  exact h.2 hcalm

private def referencedText (m : Memory) (r : SecretReference) : String :=
  ((m.secrets.get? r.key).map fun secret => secret.toValue.text).getD ""

private theorem exportedText_eq_some (hsupplied : Supplied ctx k c s) {artifact : Artifact}
    (hartifact : artifact ≠ .descriptor) {text : String} :
    exportedText s.1 c artifact = some text ↔
      ∃ r, c.spec.secretReference? artifact = some r ∧ referencedText s.1 r = text := by
  have heq : exportedText s.1 c artifact = (c.spec.secretReference? artifact).bind fun r =>
      (s.1.secrets.get? r.key).map fun secret => secret.toValue.text := by
    cases artifact <;> first | rfl | exact absurd rfl hartifact
  rw [heq]
  cases href : c.spec.secretReference? artifact with
  | none => simp
  | some r =>
    obtain ⟨secret, hsecret⟩ := Option.isSome_iff_exists.1 (hsupplied.secrets artifact r href)
    simp [referencedText, hsecret]

private theorem secretText_ends (hsupplied : Supplied ctx k c s) {r : SecretReference}
    (hr : (s.1.secrets.get? r.key).isSome) (ht : Kept ctx k c s calm t) :
    (secretText r).Keeps (weather ctx k calm) (Ends ctx k c s calm fun text u =>
      text = referencedText s.1 r ∧ Kept ctx k c s calm u) t := by
  obtain ⟨secret, hsecret⟩ := Option.isSome_iff_exists.1 hr
  have hanswer : t.1.answer (.getSecret r.key) = (.ok (some secret), t.1) := by
    rw [Memory.answer, ht.1.secrets, hsecret]
  refine ends_bind (read_ends hsupplied _ ht.1 hanswer) fun found u hu => ?_
  obtain ⟨rfl, hwaited⟩ := hu
  refine ⟨?_, ht.waited hwaited⟩
  simp [referencedText, hsecret]

private theorem secretTexts_ends (hsupplied : Supplied ctx k c s)
    {refs : List (Artifact × SecretReference)}
    (hrefs : ∀ p ∈ refs, (s.1.secrets.get? p.2.key).isSome) (ht : Kept ctx k c s calm t) :
    (secretTexts refs).Keeps (weather ctx k calm) (Ends ctx k c s calm fun texts u =>
      texts = refs.map (fun p => (p.1, referencedText s.1 p.2)) ∧ Kept ctx k c s calm u) t := by
  induction refs generalizing t with
  | nil => exact ⟨rfl, ht⟩
  | cons p rest ih =>
    obtain ⟨artifact, r⟩ := p
    refine ends_bind (secretText_ends hsupplied (hrefs _ List.mem_cons_self) ht) fun text u hu => ?_
    obtain ⟨rfl, hu⟩ := hu
    refine ends_bind (ih (fun p hp => hrefs p (List.mem_cons_of_mem _ hp)) hu) fun texts v hv => ?_
    obtain ⟨rfl, hv⟩ := hv
    exact ⟨rfl, hv⟩

private theorem collect_ends (hsupplied : Supplied ctx k c s) (ht : Kept ctx k c s calm t) :
    (collect c).Keeps (weather ctx k calm)
      (Ends ctx k c s calm fun artifacts u =>
        (∀ artifact text, (artifact, text) ∈ artifacts ↔
          exportedText s.1 c artifact = some text) ∧ Kept ctx k c s calm u) t := by
  have hrefs : ∀ p ∈ c.spec.secretReferences, (s.1.secrets.get? p.2.key).isSome := fun p hp =>
    hsupplied.secrets p.1 p.2 (mem_secretReferences.1 hp)
  have described : (ofExcept (Descriptor.ofConfig c .standard)).Keeps (weather ctx k calm)
      (Ends ctx k c s calm fun d u => Descriptor.ofConfig c .standard = .ok d ∧
        Kept ctx k c s calm u) t := ⟨rfl, ht⟩
  refine ends_bind described fun d u hu => ?_
  obtain ⟨hd, hu⟩ := hu
  refine ends_bind (secretTexts_ends hsupplied hrefs hu) fun texts v hv => ?_
  obtain ⟨rfl, hv⟩ := hv
  refine ⟨fun artifact text => ?_, hv⟩
  have hmem : (artifact, text) ∈ c.spec.secretReferences.map
      (fun p => (p.1, referencedText s.1 p.2)) ↔
        ∃ r, c.spec.secretReference? artifact = some r ∧ referencedText s.1 r = text := by
    rw [List.mem_map]
    constructor
    · rintro ⟨⟨a, r⟩, hr, heq⟩
      cases heq
      exact ⟨r, mem_secretReferences.1 hr, rfl⟩
    · rintro ⟨r, hr, rfl⟩
      exact ⟨(artifact, r), mem_secretReferences.2 hr, rfl⟩
  change (artifact, text) ∈ (Artifact.descriptor, d.toValue.text) :: c.spec.secretReferences.map
    (fun p => (p.1, referencedText s.1 p.2)) ↔ _
  rw [List.mem_cons, hmem]
  by_cases hartifact : artifact = .descriptor
  · subst hartifact
    simp [exportedText, hd, Except.toOption, ClusterConfigSpec.secretReference?, eq_comm]
  · rw [exportedText_eq_some hsupplied hartifact]
    simp [hartifact]

private theorem makeDirs_ends (hsupplied : Supplied ctx k c s) (ht : Kept ctx k c s calm t) :
    (Program.file (.makeDirs (exportDirs ctx.dataDir k).files)).Keeps (weather ctx k calm)
      (Ends ctx k c s calm fun _ u =>
        Kept ctx k c s calm u ∧ Raised ctx.dataDir k (goalOf ctx k c s) u.2) t := by
  intro a ha reply b hb
  have hkept := ht.waited (ht.1.others hsupplied ha)
  obtain ⟨fs, hanswer, hforward, hraised, hfree⟩ :=
    makeDirs_underway hsupplied.site.toExportPaths (hkept.1.underway hsupplied)
  obtain ⟨rfl, rfl⟩ := reply_of_file hb
  rw [hanswer]
  exact ⟨trivial, ⟨hkept.1.step hforward, fun h => hfree (hkept.2 h)⟩, hraised⟩

private theorem Raised.onward (h : Raised ctx.dataDir k (goalOf ctx k c s) t.2)
    (hf : Forward (goalOf ctx k c s) t.2 u.2) : Raised ctx.dataDir k (goalOf ctx k c s) u.2 :=
  fun l hl => hf.reached (h l hl)

private structure Written (ctx : ReconcileContext) (k : ObjectKey) (c : ClusterConfig)
    (s t : Memory × FileSystem) (artifacts : List Artifact) (u : Memory × FileSystem) : Prop where
  partway : Partway ctx k c s u
  forward : Forward (goalOf ctx k c s) t.2 u.2
  reached : ∀ artifact ∈ artifacts, u.2.look (artifactPlace ctx.dataDir k artifact) =
    goalOf ctx k c s (artifactPlace ctx.dataDir k artifact)

private theorem Written.after {artifacts : List Artifact} {v : Memory × FileSystem}
    (h : Written ctx k c s u artifacts v) (hf : Forward (goalOf ctx k c s) t.2 u.2) :
    Written ctx k c s t artifacts v :=
  ⟨h.partway, hf.trans h.forward, h.reached⟩

private theorem write_ends (hsupplied : Supplied ctx k c s) (ht : Partway ctx k c s t)
    (hraised : Raised ctx.dataDir k (goalOf ctx k c s) t.2) {artifact : Artifact} {text : String}
    (htext : exportedText s.1 c artifact = some text) :
    (tryFile (.write ((exportDirs ctx.dataDir k).files.join artifact.fileName) text)).Keeps
      (weather ctx k calm)
      (Ends ctx k c s calm fun r u => r = .ok () ∧ Written ctx k c s t [artifact] u) t := by
  intro a ha reply b hb
  obtain ⟨hpart, hforward, -, -⟩ := ht.others hsupplied ha
  obtain ⟨fs, hanswer, hwrite, hlook⟩ := write_raised hsupplied.site.toExportPaths
    (hpart.underway hsupplied) (hraised.onward hforward) htext
  obtain ⟨rfl, rfl⟩ := reply_of_file hb
  rw [hanswer]
  refine ⟨trivial, rfl, hpart.step hwrite, hforward.trans hwrite, fun artifact' hartifact => ?_⟩
  rw [List.mem_singleton] at hartifact
  rw [hartifact]
  exact hlook

private theorem writeIfChanged_ends (hsupplied : Supplied ctx k c s) (ht : Partway ctx k c s t)
    (hraised : Raised ctx.dataDir k (goalOf ctx k c s) t.2) {artifact : Artifact} {text : String}
    (htext : exportedText s.1 c artifact = some text) :
    (writeIfChanged ((exportDirs ctx.dataDir k).files.join artifact.fileName) text).Keeps
      (weather ctx k calm)
      (Ends ctx k c s calm fun r u => r = .ok () ∧ Written ctx k c s t [artifact] u) t := by
  intro a ha reply b hb
  obtain ⟨hpart, hforward, -, -⟩ := ht.others hsupplied ha
  have hraised' := hraised.onward hforward
  obtain ⟨rfl, rfl⟩ := reply_of_file hb
  have hwrite : (tryFile (.write ((exportDirs ctx.dataDir k).files.join artifact.fileName)
      text)).Keeps (weather ctx k calm)
        (Ends ctx k c s calm fun r u => r = .ok () ∧ Written ctx k c s t [artifact] u) a := by
    refine (write_ends hsupplied hpart hraised' htext).mono ?_
    rintro (e | r) v hv
    · exact hv
    · exact ⟨hv.1, hv.2.after hforward⟩
  refine ⟨trivial, ?_⟩
  rw [Files.FileSystem.answer]
  rcases read_raised hsupplied.site.toExportPaths (hpart.underway hsupplied) hraised' htext with
    ⟨old, hread, hold⟩ | ⟨hread, -⟩
  · rw [hread]
    change (if old = text then pure (.ok ()) else tryFile (.write _ text) :
      Program (Except Files.IoError Unit)).Keeps _ _ _
    split
    · rename_i heq
      refine ⟨rfl, hpart, hforward, fun artifact' hartifact => ?_⟩
      rw [List.mem_singleton] at hartifact
      rw [hartifact]
      exact hold.1 heq
    · exact hwrite
  · rw [hread]
    exact hwrite

private theorem writeArtifacts_ends (hsupplied : Supplied ctx k c s) (ht : Partway ctx k c s t)
    (hraised : Raised ctx.dataDir k (goalOf ctx k c s) t.2)
    {artifacts : List (Artifact × String)}
    (htexts : ∀ p ∈ artifacts, exportedText s.1 c p.1 = some p.2) :
    (writeArtifacts (exportDirs ctx.dataDir k).files artifacts).Keeps (weather ctx k calm)
      (Ends ctx k c s calm fun _ u => Written ctx k c s t (artifacts.map Prod.fst) u) t := by
  induction artifacts generalizing t with
  | nil => exact ⟨ht, .refl t.2, nofun⟩
  | cons p rest ih =>
    obtain ⟨artifact, text⟩ := p
    have htext := htexts _ List.mem_cons_self
    refine ends_bind (writeIfChanged_ends hsupplied ht hraised htext) fun r u hu => ?_
    obtain ⟨rfl, hu⟩ := hu
    have hrest := ih hu.partway (hraised.onward hu.forward) fun p hp =>
      htexts p (List.mem_cons_of_mem _ hp)
    refine hrest.mono ?_
    rintro (e | _) v hv
    · exact hv
    · refine ⟨hv.partway, hu.forward.trans hv.forward, fun artifact' hmem => ?_⟩
      rcases List.mem_cons.1 hmem with rfl | hmem
      · exact hv.forward.reached (hu.reached _ List.mem_cons_self)
      · exact hv.reached _ hmem

private theorem Partway.finished (h : Partway ctx k c s u)
    (hraised : Raised ctx.dataDir k (goalOf ctx k c s) u.2)
    (hlock : u.2.look (lockPlace ctx.dataDir k) = goalOf ctx k c s (lockPlace ctx.dataDir k))
    (hartifacts : ∀ artifact text, exportedText s.1 c artifact = some text →
      u.2.look (artifactPlace ctx.dataDir k artifact) =
        goalOf ctx k c s (artifactPlace ctx.dataDir k artifact)) : Finished ctx k c s u := by
  intro l
  by_cases hstation : l ∈ exportStations ctx.dataDir k
  · exact hraised l hstation
  by_cases hl : l = lockPlace ctx.dataDir k
  · rw [hl]
    exact hlock
  by_cases hartifact : ∃ artifact text, exportedText s.1 c artifact = some text ∧
      l = artifactPlace ctx.dataDir k artifact
  · obtain ⟨artifact, text, htext, rfl⟩ := hartifact
    exact hartifacts artifact text htext
  · -- Elsewhere the goal is what was there at first.
    refine (h.files l).elim (fun heq => ?_) id
    rw [heq, goalOf, exportedLook_elsewhere hstation hl fun artifact text htext hl =>
      hartifact ⟨artifact, text, htext, hl⟩]

private structure Lockable (ctx : ReconcileContext) (k : ObjectKey) (c : ClusterConfig)
    (s u : Memory × FileSystem) : Prop where
  partway : Partway ctx k c s u
  raised : Raised ctx.dataDir k (goalOf ctx k c s) u.2
  lock : u.2.look (lockPlace ctx.dataDir k) = goalOf ctx k c s (lockPlace ctx.dataDir k)

private theorem Lockable.step (h : Lockable ctx k c s t) {fs : FileSystem}
    (hf : Forward (goalOf ctx k c s) t.2 fs) : Lockable ctx k c s (t.1, fs) :=
  ⟨h.partway.step hf, h.raised.onward hf, hf.reached h.lock⟩

private theorem Lockable.others (h : Lockable ctx k c s t) (hsupplied : Supplied ctx k c s)
    (ho : (weather ctx k calm).others t u) : Lockable ctx k c s u := by
  obtain ⟨hpart, hf, -, -⟩ := h.partway.others hsupplied ho
  exact ⟨hpart, h.raised.onward hf, hf.reached h.lock⟩

private theorem openLock_ends (hsupplied : Supplied ctx k c s) (ht : Kept ctx k c s calm t)
    (hraised : Raised ctx.dataDir k (goalOf ctx k c s) t.2) (wrap : Files.IoError → Error) :
    (Program.file (.openLock (ctx.lockPath k)) wrap).Keeps (weather ctx k calm)
      (Ends ctx k c s calm fun inode u =>
        Lockable ctx k c s u ∧ (calm → inode ∉ u.2.held)) t := by
  intro a ha reply b hb
  have hwaited := ht.1.others hsupplied ha
  have hkept := ht.waited hwaited
  have hraised' := hraised.onward hwaited.forward
  obtain ⟨inode, fs, hanswer, hforward, hlock, hfree⟩ :=
    openLock_raised hsupplied.site.toExportPaths (hkept.1.underway hsupplied) hraised'
  obtain ⟨rfl, rfl⟩ := reply_of_file hb
  rw [ReconcileContext.lockPath, hanswer]
  exact ⟨trivial, ⟨hkept.1.step hforward, hraised'.onward hforward, hlock⟩,
    fun hcalm => hfree (hkept.2 hcalm)⟩

private theorem tryLock_ends (hsupplied : Supplied ctx k c s) (ht : Lockable ctx k c s t)
    {inode : Nat} (hfree : calm → inode ∉ t.2.held) (wrap : Files.IoError → Error) :
    (Program.file (.tryLock inode) wrap).Keeps (weather ctx k calm)
      (Ends ctx k c s calm fun free u => Lockable ctx k c s u ∧ (calm → free = true)) t := by
  intro a ha reply b hb
  have hentries : (a.2.tryLock inode).2.entries = a.2.entries := by
    unfold Files.FileSystem.tryLock
    split <;> rfl
  obtain ⟨rfl, rfl⟩ := reply_of_file hb
  refine ⟨trivial, (ht.others hsupplied ha).step (Files.FileSystem.forward_of_entries hentries),
    fun hcalm => ?_⟩
  have hnot : inode ∉ a.2.held := ha.2 hcalm ▸ hfree hcalm
  simp [Files.FileSystem.tryLock, hnot]

private theorem tryWriteLock_ends (hsupplied : Supplied ctx k c s) (ht : Kept ctx k c s calm t)
    (hraised : Raised ctx.dataDir k (goalOf ctx k c s) t.2) :
    (tryWriteLock (exportDirs ctx.dataDir k).lock).Keeps (weather ctx k calm)
      (Ends ctx k c s calm fun taken u =>
        Lockable ctx k c s u ∧ (calm → taken ≠ none)) t := by
  refine ends_bind (openLock_ends hsupplied ht hraised _) fun inode u hu => ?_
  refine ends_bind (tryLock_ends hsupplied hu.1 hu.2 _) fun free v hv => ⟨hv.1, fun hcalm => ?_⟩
  rw [hv.2 hcalm]
  exact nofun

private theorem Finished.onward (h : Finished ctx k c s t)
    (hf : Forward (goalOf ctx k c s) t.2 u.2) : Finished ctx k c s u := fun l => hf.reached (h l)

private theorem release_ends (hsupplied : Supplied ctx k c s) (ht : Partway ctx k c s t)
    (inode : Nat) :
    (tryFile (.release inode)).Keeps (weather ctx k calm)
      (Ends ctx k c s calm fun _ u =>
        Partway ctx k c s u ∧ Forward (goalOf ctx k c s) t.2 u.2) t := by
  intro a ha reply b hb
  obtain ⟨hpart, hforward, -, -⟩ := ht.others hsupplied ha
  obtain ⟨rfl, rfl⟩ := reply_of_file hb
  have hsame : Forward (goalOf ctx k c s) a.2 (a.2.release inode) :=
    Files.FileSystem.forward_of_entries rfl
  exact ⟨trivial, hpart.step hsame, hforward.trans hsame⟩

private theorem locked_ends (hsupplied : Supplied ctx k c s) (ht : Kept ctx k c s calm t)
    (hraised : Raised ctx.dataDir k (goalOf ctx k c s) t.2)
    {artifacts : List (Artifact × String)}
    (htexts : ∀ artifact text, (artifact, text) ∈ artifacts ↔
      exportedText s.1 c artifact = some text) :
    (withWriteLock (exportDirs ctx.dataDir k).lock
        (writeArtifacts (exportDirs ctx.dataDir k).files artifacts)).Keeps (weather ctx k calm)
      (Ends ctx k c s calm fun written u => Partway ctx k c s u ∧
        (written = none ∧ ¬calm ∨ written = some () ∧ Finished ctx k c s u)) t := by
  refine ends_bind (tryWriteLock_ends hsupplied ht hraised) fun taken u hu => ?_
  obtain ⟨hlockable, htaken⟩ := hu
  cases taken with
  | none => exact ⟨hlockable.partway, .inl ⟨rfl, fun hcalm => htaken hcalm rfl⟩⟩
  | some inode =>
    have hwrites : (writeArtifacts (exportDirs ctx.dataDir k).files artifacts).Keeps
        (weather ctx k calm) _ u := writeArtifacts_ends hsupplied hlockable.partway
      hlockable.raised fun p hp => (htexts p.1 p.2).1 hp
    refine keeps_bind.2 (keeps_attempt.2 (hwrites.mono fun r v hv => ?_))
    cases r with
    | error e =>
      refine ends_bind (release_ends hsupplied hv.2 inode) fun _ x hx => ⟨hv.1, hx.1⟩
    | ok _ =>
      have hfinished : Finished ctx k c s v :=
        hv.partway.finished (hlockable.raised.onward hv.forward)
          (hv.forward.reached hlockable.lock) fun artifact text htext =>
            hv.reached artifact (List.mem_map.2 ⟨_, (htexts artifact text).2 htext, rfl⟩)
      refine ends_bind (release_ends hsupplied hv.partway inode) fun _ x hx => ?_
      exact ⟨hx.1, .inr ⟨rfl, hfinished.onward hx.2⟩⟩

private theorem exportConfig_ends (hsupplied : Supplied ctx k c s)
    (ht : Kept ctx k c s calm t) :
    (exportConfig ctx.dataDir c).Keeps (weather ctx k calm)
      (Ends ctx k c s calm fun outcome u => Partway ctx k c s u ∧
        (outcome.isRequeue = true ∧ ¬calm ∨
          outcome = .settled ∧ Finished ctx k c s u)) t := by
  unfold exportConfig
  rw [hsupplied.keyed]
  refine ends_bind (collect_ends hsupplied ht) fun artifacts u hu => ?_
  obtain ⟨htexts, hkept⟩ := hu
  refine ends_bind (makeDirs_ends hsupplied hkept) fun _ v hv => ?_
  refine ends_bind (locked_ends hsupplied hv.1 hv.2 htexts) fun written x hx => ?_
  obtain ⟨hpartway, ⟨rfl, hcalm⟩ | ⟨rfl, hfinished⟩⟩ := hx
  · exact ends_bind (note_ends hsupplied _ hpartway) fun _ y hy =>
      ⟨hy.partway, .inl ⟨rfl, hcalm⟩⟩
  · exact ⟨hpartway, .inr ⟨rfl, hfinished⟩⟩

private theorem patchHost_ends (hsupplied : Supplied ctx k c s) (ht : Partway ctx k c s t)
    {r : HostReference} {host : Host} (hr : c.spec.bareMetalHostRef = some r)
    (hget : t.1.hosts.get? r.key = some host) :
    (Program.store (.patchHost r.key host.metadata.resourceVersion
        (HostPatch.bootFrom host.spec (imageUrl ctx.serviceUrl k)))).Keeps (weather ctx k calm)
      (Ends ctx k c s calm fun _ u => Partway ctx k c s u ∧
        Forward (goalOf ctx k c s) t.2 u.2 ∧ Hosted ctx k c s u) t := by
  refine store_ends hsupplied _ ht fun u hu => ?_
  rw [← hu.store] at hget
  obtain ⟨m, hanswer, hhosted⟩ := hu.partway.hosted hr hget
  have hpatched := hu.partway.patchHost host.metadata.resourceVersion hget
  rw [hanswer] at hpatched
  exact ⟨(), m, hanswer, hpatched, hpatched, hu.forward, hhosted⟩

private theorem setImage_ends (hsupplied : Supplied ctx k c s) (ht : Partway ctx k c s t)
    {r : HostReference} (hr : c.spec.bareMetalHostRef = some r) :
    (setImage r (imageUrl ctx.serviceUrl k)).Keeps (weather ctx k calm)
      (Ends ctx k c s calm fun _ u => Partway ctx k c s u ∧
        Forward (goalOf ctx k c s) t.2 u.2 ∧ Hosted ctx k c s u) t := by
  obtain ⟨-, host, -, hget, -⟩ := ht.host r hr
  have hanswer : t.1.answer (.getHost r.key) = (.ok (some host), t.1) := by
    rw [Memory.answer, hget]
  refine ends_bind (read_ends hsupplied _ ht hanswer) fun found u hu => ?_
  obtain ⟨rfl, hu⟩ := hu
  rw [← hu.store] at hget
  change (if _ then pure false else _ : Program Bool).Keeps _ _ _
  split
  · rename_i hempty
    exact ⟨hu.partway, hu.forward, hu.partway.hosted_of_isEmpty hr hget hempty⟩
  · refine ends_bind (note_ends hsupplied _ hu.partway) fun _ v hv => ?_
    rw [← hv.store] at hget
    refine ends_bind (patchHost_ends hsupplied hv.partway hr hget) fun _ x hx => ?_
    exact ⟨hx.1, (hu.forward.trans hv.forward).trans hx.2.1, hx.2.2⟩

private theorem syncHost_ends (hsupplied : Supplied ctx k c s) (ht : Partway ctx k c s t) :
    (syncHost ctx.serviceUrl k c).Keeps (weather ctx k calm)
      (Ends ctx k c s calm fun _ u => Partway ctx k c s u ∧
        Forward (goalOf ctx k c s) t.2 u.2 ∧ Hosted ctx k c s u) t := by
  unfold syncHost
  cases hr : c.spec.bareMetalHostRef with
  | none => exact ⟨ht, .refl t.2, fun r hr' => nomatch hr.symm.trans hr'⟩
  | some r => exact ends_bind (setImage_ends hsupplied ht hr) fun _ _ hu => hu

private theorem converge_ends (hsupplied : Supplied ctx k c s) (ht : Kept ctx k c s calm t) :
    (converge ctx k c).Keeps (weather ctx k calm)
      (Ends ctx k c s calm fun outcome u => Partway ctx k c s u ∧
        (calm → outcome = .settled ∧ Finished ctx k c s u ∧ Hosted ctx k c s u)) t := by
  refine ends_bind (exportConfig_ends hsupplied ht) fun outcome u hu => ?_
  obtain ⟨hpartway, ⟨hrequeue, hcalm⟩ | ⟨rfl, hfinished⟩⟩ := hu
  · rw [if_pos hrequeue]
    exact ⟨hpartway, fun h => absurd h hcalm⟩
  · refine ends_bind (syncHost_ends hsupplied hpartway) fun _ v hv => ?_
    refine ends_bind (note_ends hsupplied _ hv.1) fun _ x hx => ?_
    refine ⟨hx.partway, fun h => ⟨rfl, ?_, ?_⟩⟩
    · rw [hx.calm h]
      exact fun l => hv.2.1.reached (hfinished l)
    · rw [hx.calm h]
      exact hv.2.2

section Stored

variable {finalizers : Option (List String)} {version : Option String}

private theorem Supplied.stored (h : Supplied ctx k c s) :
    Supplied ctx k (c.withFinalizers finalizers version) s :=
  ⟨h.keyed, h.alive, h.secrets, h.host, h.site⟩

private theorem Partway.stored (h : Partway ctx k c s t)
    (hget : t.1.configs.get? k = some (c.withFinalizers finalizers version)) :
    Partway ctx k (c.withFinalizers finalizers version) s t :=
  ⟨⟨finalizers, version, hget, .inl rfl⟩, h.secrets, h.host, h.files⟩

private theorem Partway.of_stored (hguarded : finalizers.getD [] = guardedFinalizers c)
    (hfinalizer : (c.withFinalizers finalizers version).hasFinalizer = true)
    (h : Partway ctx k (c.withFinalizers finalizers version) s t) :
    ∃ finalizers' version',
      t.1.configs.get? k = some (c.withFinalizers finalizers' version') ∧
        finalizers'.getD [] = guardedFinalizers c := by
  obtain ⟨finalizers', version', hget, hlist⟩ := h.config
  refine ⟨finalizers', version', hget, ?_⟩
  rw [guardedFinalizers, if_pos hfinalizer, or_self] at hlist
  exact hlist.trans hguarded

private theorem guarded_ends (hsupplied : Supplied ctx k c s) (ht : Kept ctx k c s calm t)
    (hget : t.1.configs.get? k = some (c.withFinalizers finalizers version))
    (hguarded : finalizers.getD [] = guardedFinalizers c)
    (hfinalizer : (c.withFinalizers finalizers version).hasFinalizer = true) :
    (converge ctx k (c.withFinalizers finalizers version)).Keeps (weather ctx k calm)
      (Ends ctx k c s calm fun outcome u => Partway ctx k c s u ∧
        (calm → outcome = .settled ∧ Arrived ctx k c s u)) t := by
  -- The work is done for the config that was read, which has all its finalizers: none of its steps
  -- changes them, and what is partway for it is partway for the config that was stored at first.
  have hback : ∀ u, Partway ctx k (c.withFinalizers finalizers version) s u →
      Partway ctx k c s u := by
    intro u hu
    obtain ⟨finalizers', version', hget', hlist⟩ := hu.of_stored hguarded hfinalizer
    exact ⟨⟨finalizers', version', hget', .inr hlist⟩, hu.secrets, hu.host, hu.files⟩
  refine (converge_ends hsupplied.stored ⟨ht.1.stored hget, ht.2⟩).mono ?_
  rintro (e | outcome) u hu
  · exact ⟨hu.1, hback u hu.2⟩
  · refine ⟨hback u hu.1, fun h => ?_⟩
    obtain ⟨hsettled, hfinished, hhosted⟩ := hu.2 h
    exact ⟨hsettled, hu.1.of_stored hguarded hfinalizer, hhosted, hfinished,
      fun _ _ htext => hfinished.readFile hu.1 hsupplied.stored htext⟩

private theorem patchFinalizers_ends (hsupplied : Supplied ctx k c s)
    (ht : Kept ctx k c s calm t)
    (hget : t.1.configs.get? k = some (c.withFinalizers finalizers version)) :
    (Program.store (.patchFinalizers k version (guardedFinalizers c))).Keeps (weather ctx k calm)
      (Ends ctx k c s calm fun _ u => Kept ctx k c s calm u ∧ Guarded k u) t := by
  refine store_ends hsupplied _ ht.1 fun u hu => ?_
  rw [← hu.store] at hget
  obtain ⟨m, version', hanswer, hnow⟩ := hu.partway.guarded hget
  have hpatched := hu.partway.patchFinalizers version
  change u.1.answer (.patchFinalizers k version (guardedFinalizers c)) = _ at hanswer
  rw [hanswer] at hpatched
  exact ⟨(), m, hanswer, hpatched, ⟨hpatched, (ht.waited hu).2⟩, _, hnow,
    hasFinalizer_guarded rfl⟩

private theorem ensureFinalizer_ends (hsupplied : Supplied ctx k c s)
    (ht : Kept ctx k c s calm t)
    (hget : t.1.configs.get? k = some (c.withFinalizers finalizers version))
    (hnew : finalizers.getD [] ++ [ourFinalizer] = guardedFinalizers c)
    (hfinalizer : (c.withFinalizers finalizers version).hasFinalizer ≠ true) :
    (ensureFinalizer (c.withFinalizers finalizers version)).Keeps (weather ctx k calm)
      (Ends ctx k c s calm fun step u => step = .halt .requeueNow ∧
        Kept ctx k c s calm u ∧ Guarded k u) t := by
  have hkey : (c.withFinalizers finalizers version).key = k := hsupplied.keyed
  change (finalizers.getD []) ++ [ourFinalizer] = _ at hnew
  rw [ensureFinalizer, if_neg hfinalizer, hkey]
  refine ends_bind (note_ends hsupplied _ ht.1) fun _ u hu => ?_
  rw [← hu.store] at hget
  have hpatch := patchFinalizers_ends hsupplied (ht.waited hu) hget
  rw [← hnew] at hpatch
  exact ends_bind hpatch fun _ v hv => ⟨rfl, hv⟩

end Stored

private theorem reconcile_ends (hsupplied : Supplied ctx k c s) (ht : Kept ctx k c s calm t) :
    (reconcile ctx k).Keeps (weather ctx k calm)
      (Ends ctx k c s calm fun outcome u => Partway ctx k c s u ∧ (calm →
        (Guarded k t → outcome = .settled ∧ Arrived ctx k c s u) ∧
        (¬Guarded k t → outcome = .requeueNow ∧ Guarded k u ∧
          Unlocked ctx.dataDir k u.2))) t := by
  refine ends_bind (note_ends hsupplied _ ht.1) fun _ u hu => ?_
  obtain ⟨finalizers, version, hget, hlist⟩ := hu.partway.config
  have hanswer : u.1.answer (.getConfig k) =
      (.ok (some (c.withFinalizers finalizers version)), u.1) := by
    rw [Memory.answer, hget]
  refine ends_bind (read_ends hsupplied _ hu.partway hanswer) fun found x hx => ?_
  obtain ⟨rfl, hx⟩ := hx
  have hkept := (ht.waited hu).waited hx
  have hsame : x.1 = t.1 := hx.store.trans hu.store
  rw [← hx.store] at hget
  have halive : (c.withFinalizers finalizers version).metadata.isDeleting ≠ true := by
    rw [Ne, Bool.not_eq_true]
    exact hsupplied.alive
  change (lifecycleStep ctx.dataDir (c.withFinalizers finalizers version) >>= _).Keeps _ _ _
  rw [lifecycleStep, if_neg halive]
  by_cases hfinalizer : (c.withFinalizers finalizers version).hasFinalizer = true
  · rw [ensureFinalizer, if_pos hfinalizer]
    have hguarded := finalizers_of_hasFinalizer hlist hfinalizer
    refine (guarded_ends hsupplied hkept hget hguarded hfinalizer).mono ?_
    rintro (e | outcome) y hy
    · exact hy
    · refine ⟨hy.1, fun h => ⟨fun _ => hy.2 h, fun hnot => absurd ⟨_, ?_, hfinalizer⟩ hnot⟩⟩
      rw [← hsame]
      exact hget
  · have hnot : ¬Guarded k t := by
      rintro ⟨c', hget', hfinalizer'⟩
      rw [← hsame, hget] at hget'
      obtain rfl := Option.some.inj hget'
      exact hfinalizer hfinalizer'
    have hnew := finalizers_of_not_hasFinalizer hlist hfinalizer
    refine ends_bind (ensureFinalizer_ends hsupplied hkept hget hnew hfinalizer) fun step y hy => ?_
    obtain ⟨rfl, hkept', hguarded⟩ := hy
    exact ⟨hkept'.1, fun h => ⟨fun hguarded' => absurd hguarded' hnot,
      fun _ => ⟨rfl, hguarded, hkept'.2 h⟩⟩⟩

end Weather

section Settling

variable {ctx : ReconcileContext} {k : ObjectKey} {c : ClusterConfig} {s t : Memory × FileSystem}

/-- No disturbance leads a reconcile off its way. -/
theorem Disturbed.partway (hready : Ready ctx k c s) (h : Disturbed ctx k s t) :
    Partway ctx k c s t := by
  induction h with
  | none => exact hready.partway
  | contention _ hc ih => exact ih.step (ih.contention hready.toSupplied hc)
  | @reconcile t u r _ hcourse ih =>
    -- Disturbances are the weather that is not known to be calm.
    have hweather : (Relocation.reconcile ctx k).Course (weather ctx k False) t r u :=
      hcourse.mono (fun _ _ h => ⟨h, False.elim⟩) fun _ _ _ _ h => ⟨h, False.elim⟩
    have hends := (reconcile_ends hready.toSupplied ⟨ih, False.elim⟩).course hweather
    cases r with
    | error e => exact hends.2
    | ok outcome => exact hends.1

theorem reconciled_ends (hsupplied : Supplied ctx k c s) (h : Partway ctx k c s t)
    (hfree : Unlocked ctx.dataDir k t.2) :
    Partway ctx k c s (reconciled ctx k t).2 ∧
      (Guarded k t → (reconciled ctx k t).1 = .ok .settled ∧
        Arrived ctx k c s (reconciled ctx k t).2) ∧
      (¬Guarded k t → (reconciled ctx k t).1 = .ok .requeueNow ∧
        Guarded k (reconciled ctx k t).2 ∧ Unlocked ctx.dataDir k (reconciled ctx k t).2.2) := by
  have hothers : ∀ a, (weather ctx k True).others a a := fun _ => ⟨⟨rfl, .none⟩, fun _ => rfl⟩
  have hanswers : ∀ a q, (weather ctx k True).answers a q (besideFiles Memory.answer q a).1
      (besideFiles Memory.answer q a).2 := fun a q => ⟨.answered q a, fun _ => rfl⟩
  have hcourse : (Relocation.reconcile ctx k).Course (weather ctx k True) t
      (reconciled ctx k t).1 (reconciled ctx k t).2 := course_run hothers hanswers _ t
  have hends := (reconcile_ends hsupplied ⟨h, fun _ => hfree⟩).course hcourse
  cases hresult : (reconciled ctx k t).1 with
  | error e =>
    rw [hresult] at hends
    exact absurd trivial hends.1
  | ok outcome =>
    rw [hresult] at hends
    obtain ⟨hpartway, hcalm⟩ := hends
    obtain ⟨hguarded, hunguarded⟩ := hcalm trivial
    refine ⟨hpartway, fun h => ?_, fun h => ?_⟩
    · exact ⟨congrArg _ (hguarded h).1, (hguarded h).2⟩
    · exact ⟨congrArg _ (hunguarded h).1, (hunguarded h).2⟩

private theorem settle_arrives (hsupplied : Supplied ctx k c s) (h : Partway ctx k c s t)
    (hfree : Unlocked ctx.dataDir k t.2) :
    (settle ctx k t).1 = .ok .settled ∧ Arrived ctx k c s (settle ctx k t).2 := by
  obtain ⟨hpartway, hguarded, hunguarded⟩ := reconciled_ends hsupplied h hfree
  by_cases hg : Guarded k t
  · obtain ⟨hsettled, harrived⟩ := hguarded hg
    have hsettle : settle ctx k t = reconciled ctx k t := by
      unfold settle
      split
      · rename_i u hrequeue
        rw [hrequeue] at hsettled
        cases hsettled
      · rfl
    rw [hsettle]
    exact ⟨hsettled, harrived⟩
  · obtain ⟨hrequeue, hg', hfree'⟩ := hunguarded hg
    have hpair : reconciled ctx k t = (.ok .requeueNow, (reconciled ctx k t).2) :=
      Prod.ext hrequeue rfl
    have hsettle : settle ctx k t = reconciled ctx k (reconciled ctx k t).2 := by
      unfold settle
      rw [hpair]
    rw [hsettle]
    exact (reconciled_ends hsupplied hpartway hfree').2.1 hg'

/-- However reconciles of a config were disturbed, the first undisturbed one asks for another one at
once just when our finalizer is still missing, and two at most come to the tree, the finalizers and
the host to which they come from the first state. -/
theorem settles_after_disturbances (hready : Ready ctx k c s) (hs : Unlocked ctx.dataDir k s.2)
    (hdisturbed : Disturbed ctx k s t) (ht : Unlocked ctx.dataDir k t.2) :
    ((reconciled ctx k t).1 = .ok .requeueNow ↔ ¬Guarded k t) ∧
      ((reconciled ctx k t).1 = .ok .settled ↔ Guarded k t) ∧
      (settle ctx k t).1 = .ok .settled ∧ Arrived ctx k c s (settle ctx k t).2 ∧
      Alike k c (settle ctx k t).2 (settle ctx k s).2 := by
  have hpartway := hdisturbed.partway hready
  obtain ⟨-, hguarded, hunguarded⟩ := reconciled_ends hready.toSupplied hpartway ht
  obtain ⟨hsettled, harrived⟩ := settle_arrives hready.toSupplied hpartway ht
  obtain ⟨-, harrived'⟩ := settle_arrives hready.toSupplied hready.partway hs
  refine ⟨⟨fun h hg => ?_, fun hg => (hunguarded hg).1⟩, ⟨fun h => ?_, fun hg => (hguarded hg).1⟩,
    hsettled, harrived, harrived.alike harrived'⟩
  · rw [(hguarded hg).1] at h
    cases h
  · by_cases hg : Guarded k t
    · exact hg
    · rw [(hunguarded hg).1] at h
      cases h

private def referringConfig : ClusterConfig where
  metadata := { name := some "site", space := some "edge" }
  spec := {
    relocation := { domain := "example.com", pullSecretRef := some ⟨"pull", "edge"⟩ }
    bareMetalHostRef := some ⟨"metal", "edge"⟩ }

private def referringState : Memory × FileSystem where
  fst := {
    configs := Table.empty.insert ⟨"edge", "site"⟩ referringConfig
    hosts := Table.empty.insert ⟨"edge", "metal"⟩ ⟨{}, {}⟩
    secrets := Table.empty.insert ⟨"edge", "pull"⟩ {} }
  snd := { entries := Table.empty.insert ["data"] (.directory 0o755) }

private theorem vacant_referringState {l : Location} (hl : l ≠ ["data"]) :
    referringState.2.entries.get? l = none := by
  rw [referringState, Table.get?_insert_of_ne _ _ hl]
  rfl

private theorem site_referringState :
    ExportSite sampleContext.dataDir ⟨"edge", "site"⟩ referringState.2 := by
  have hk : (⟨"edge", "site"⟩ : ObjectKey).Placeable := by decide
  refine ⟨⟨hk, by decide, rfl, ?_, exportStations_apart hk (by decide)⟩, fun l _ => ?_, ?_⟩
  · intro artifact
    cases artifact <;> rfl
  · by_cases hl : l = ["data"]
    · rw [hl]
      exact .inr ⟨0o755, rfl⟩
    · exact .inl (vacant_referringState hl)
  · rintro l (rfl | ⟨artifact, rfl⟩)
    · exact .inl (vacant_referringState (by decide))
    · refine .inl (vacant_referringState ?_)
      cases artifact <;> decide

private theorem ready_referringState :
    Ready sampleContext ⟨"edge", "site"⟩ referringConfig referringState where
  keyed := rfl
  alive := rfl
  secrets artifact r hr := by
    cases artifact <;> cases hr
    rfl
  host r hr := by
    cases hr
    rfl
  site := site_referringState
  stored := rfl

private theorem unlocked_referringState :
    Unlocked sampleContext.dataDir ⟨"edge", "site"⟩ referringState.2 :=
  ⟨List.not_mem_nil, fun _ _ _ _ => List.not_mem_nil⟩

/-- A reconcile whose patch of the finalizers took effect, but was answered with an error. -/
theorem settles_after_lost_reply :
    Ready sampleContext ⟨"edge", "site"⟩ referringConfig referringState ∧
      Unlocked sampleContext.dataDir ⟨"edge", "site"⟩ referringState.2 ∧
      ∃ t, Disturbed sampleContext ⟨"edge", "site"⟩ referringState t ∧
        Unlocked sampleContext.dataDir ⟨"edge", "site"⟩ t.2 ∧ Guarded ⟨"edge", "site"⟩ t ∧
        (reconciled sampleContext ⟨"edge", "site"⟩ t).1 = .ok .settled ∧
        Arrived sampleContext ⟨"edge", "site"⟩ referringConfig referringState
          (settle sampleContext ⟨"edge", "site"⟩ t).2 ∧
        Alike ⟨"edge", "site"⟩ referringConfig (settle sampleContext ⟨"edge", "site"⟩ t).2
          (settle sampleContext ⟨"edge", "site"⟩ referringState).2 := by
  have cut : Disturbed sampleContext ⟨"edge", "site"⟩ referringState _ :=
    .reconcile .none (.ask ⟨rfl, .none⟩ (.answered _ _) (.ask ⟨rfl, .none⟩ (.answered _ _)
      (.ask ⟨rfl, .none⟩ (.answered _ _) (.ask ⟨rfl, .none⟩ (.lost _ (.notFound "" "") _) .done))))
  obtain ⟨-, hsettled, -, harrived, halike⟩ := settles_after_disturbances ready_referringState
    unlocked_referringState cut unlocked_referringState
  exact ⟨ready_referringState, unlocked_referringState, _, cut, unlocked_referringState,
    ⟨_, rfl, rfl⟩, hsettled.2 ⟨_, rfl, rfl⟩, harrived, halike⟩

end Settling

end Relocation
