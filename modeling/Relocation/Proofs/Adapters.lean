import Relocation.Proofs.Requests
import Relocation.Proofs.SameObjects

/-!
A reconcile over a cluster in memory and over a server with the same objects. Others write to both
between the store calls of the reconcile, whatever they like, but the same to both. Two programs are
coupled if they end alike in any such two worlds; a reconcile is coupled to itself, part by part, so
it comes to the same on both sides (`reconcile_alike`).
-/

set_option autoImplicit false

namespace Relocation

open Files (FileSystem)
open Json Store Program

/-- A store to which others write: what they write under a number comes before the call of that
number. -/
def amidOthers {τ : Type} (writes : Nat → τ → τ) (store : StoreBehaviour τ) :
    StoreBehaviour (τ × Nat)
  | call, (t, n) => ((store call (writes n t)).1, (store call (writes n t)).2, n + 1)

/-- What others write before every store call: the same to a cluster in memory and to a server. -/
structure Schedule (i : Interface) where
  memory : Nat → Memory → Memory
  server : Nat → ApiServer → ApiServer
  writes : ∀ n m, Writes m (memory n m)
  same : ∀ n m s, Mirrors i m s → Mirrors i (memory n m) (server n s)

def Schedule.inMemory {i : Interface} (w : Schedule i) : World ((Memory × Nat) × FileSystem) :=
  besideFiles (amidOthers w.memory Memory.answer)

def Schedule.onServer {i : Interface} (w : Schedule i) : World ((ApiServer × Nat) × FileSystem) :=
  besideFiles (amidOthers w.server (ApiServer.answer i))

/-- States of the two worlds that make no difference: the same objects, as many store calls made,
and the same files. -/
structure Paired (i : Interface) (a : (Memory × Nat) × FileSystem)
    (b : (ApiServer × Nat) × FileSystem) : Prop where
  same : Mirrors i a.1.1 b.1.1
  calls : a.1.2 = b.1.2
  files : a.2 = b.2

section Coupled

variable {α β γ δ : Type} {i : Interface} {w : Schedule i} {pre : Memory → Prop}
  {post : α → β → Memory → Prop}

/-- Whether two programs come to the same in the two worlds, from paired states in which the cluster
in memory is as it should be. -/
def Coupled (w : Schedule i) (pre : Memory → Prop) (p : Program α) (p' : Program β)
    (post : α → β → Memory → Prop) : Prop :=
  ∀ a b, Paired i a b → pre a.1.1 →
    Paired i (p.run w.inMemory a).2 (p'.run w.onServer b).2 ∧
      EndsAlike (fun x y => post x y (p.run w.inMemory a).2.1.1) (p.run w.inMemory a).1
        (p'.run w.onServer b).1

theorem coupled_pure {x : α} {y : β} (h : ∀ m, pre m → post x y m) :
    Coupled w pre (pure x) (pure y) post :=
  fun a _ hpaired hpre => ⟨hpaired, .ok (h a.1.1 hpre)⟩

theorem coupled_fail (e : Error) : Coupled w pre (fail e) (fail e) post :=
  fun _ _ hpaired _ => ⟨hpaired, .error (Error.Alike.refl e)⟩

theorem Coupled.mono {pre' : Memory → Prop} {post' : α → β → Memory → Prop} {p : Program α}
    {p' : Program β} (h : Coupled w pre p p' post) (hpre : ∀ m, pre' m → pre m)
    (hpost : ∀ x y m, post x y m → post' x y m) : Coupled w pre' p p' post' := by
  intro a b hpaired ha
  obtain ⟨hafter, hends⟩ := h a b hpaired (hpre _ ha)
  exact ⟨hafter, hends.mono fun x y => hpost x y _⟩

theorem coupled_of_fact {fact : Prop} {p : Program α} {p' : Program β}
    (h : fact → Coupled w pre p p' post) : Coupled w (fun m => fact ∧ pre m) p p' post :=
  fun a b hpaired hpre => h hpre.1 a b hpaired hpre.2

theorem Coupled.bind {mid : α → β → Memory → Prop} {post : γ → δ → Memory → Prop} {p : Program α}
    {p' : Program β} {f : α → Program γ} {f' : β → Program δ} (h : Coupled w pre p p' mid)
    (hf : ∀ x y, Coupled w (mid x y) (f x) (f' y) post) :
    Coupled w pre (p >>= f) (p' >>= f') post := by
  intro a b hpaired ha
  obtain ⟨hafter, hends⟩ := h a b hpaired ha
  rw [run_bind, run_bind]
  rcases hp : p.run w.inMemory a with ⟨r, a'⟩
  rcases hp' : p'.run w.onServer b with ⟨r', b'⟩
  rw [hp, hp'] at hafter hends
  cases hends with
  | ok hxy => exact hf _ _ a' b' hafter hxy
  | error he => exact ⟨hafter, .error he⟩

theorem coupled_store {call call' : StoreCall}
    {post : call.Result → call'.Result → Memory → Prop}
    (hstable : ∀ m m', Writes m m' → pre m → pre m')
    (hcall : ∀ m s, Mirrors i m s → pre m →
      AnswersAlike i (fun x y => post x y (m.answer call).2) (m.answer call) (s.answer i call')) :
    Coupled w pre (store call) (store call') post := by
  rintro ⟨⟨m, n⟩, fs⟩ ⟨⟨s, _⟩, _⟩ ⟨hsame, hcalls, hfiles⟩ hpre
  obtain rfl : n = _ := hcalls
  obtain rfl : fs = _ := hfiles
  obtain ⟨hresult, hafter⟩ := hcall (w.memory n m) (w.server n s) (w.same n m s hsame)
    (hstable _ _ (w.writes n m) hpre)
  exact ⟨⟨hafter, rfl, rfl⟩, hresult⟩

theorem coupled_note (notice : Notice) :
    Coupled w pre (note notice) (note notice) fun _ _ => pre :=
  fun _ _ hpaired hpre => ⟨hpaired, .ok hpre⟩

/-- Whether a request is one that both worlds answer in the same words: about files, a notice, or
for a secret that has a name. -/
def SameReply : Request → Prop
  | .store (.getSecret key) => IsNamed key
  | .store _ => False
  | .file _ | .note _ => True

theorem coupled_only {p : Program α} (hp : p.Only SameReply)
    (hstable : ∀ m m', Writes m m' → pre m → pre m') :
    Coupled w pre p p fun x y m => x = y ∧ pre m := by
  induction p with
  | done r =>
    cases r with
    | ok x => exact coupled_pure fun m hm => ⟨rfl, hm⟩
    | error e => exact coupled_fail e
  | ask q next ih =>
    rintro ⟨⟨m, n⟩, fs⟩ ⟨⟨s, _⟩, _⟩ ⟨hsame, hcalls, hfiles⟩ hpre
    obtain rfl : n = _ := hcalls
    obtain rfl : fs = _ := hfiles
    cases q with
    | file call => exact ih _ (hp.2 _) _ _ ⟨hsame, rfl, rfl⟩ hpre
    | note notice => exact ih _ (hp.2 _) _ _ ⟨hsame, rfl, rfl⟩ hpre
    | store call =>
      cases call with
      | getSecret key =>
        have hwritten := w.same n m s hsame
        have hanswer := hwritten.getSecret hp.1
        rw [run_ask, run_ask]
        simp only [Schedule.inMemory, Schedule.onServer, besideFiles, amidOthers] at ih ⊢
        rw [hanswer]
        exact ih _ (hp.2 _) _ _ ⟨hwritten, rfl, rfl⟩ (hstable _ _ (w.writes n m) hpre)
      | _ => exact hp.1.elim

end Coupled

section Parts

variable {i : Interface} {w : Schedule i} {ctx : ReconcileContext} {key : ObjectKey}
  {c : ClusterConfig} {m m' : Memory}

/-- Whether a config was stored at some time up to now. -/
def Remembers (key : ObjectKey) (c : ClusterConfig) (m : Memory) : Prop :=
  ∃ m₀, m₀.Reachable ∧ m₀.configs.get? key = some c ∧ Writes m₀ m

theorem Remembers.writes (h : Remembers key c m) (hwrites : Writes m m') : Remembers key c m' := by
  obtain ⟨m₀, hreachable, hget, hsince⟩ := h
  exact ⟨m₀, hreachable, hget, hsince.trans hwrites⟩

theorem Remembers.eq_of_version (h : Remembers key c m) {c' : ClusterConfig}
    (hget : m.configs.get? key = some c')
    (hversion : c'.metadata.resourceVersion = c.metadata.resourceVersion) : c' = c := by
  obtain ⟨m₀, hreachable, hget₀, hsince⟩ := h
  exact eq_of_isCurrent hreachable.advances.configs hsince.advances.configs hget₀ hget
    (hversion ▸ isCurrent_self _)

private theorem always (m m' : Memory) : Writes m m' → True → True := fun _ => id

theorem coupled_getHost (hkey : IsNamed key) {pre : Memory → Prop}
    (hstable : ∀ m m', Writes m m' → pre m → pre m') :
    Coupled w pre (store (.getHost key)) (store (.getHost key))
      fun o o' m => Option.Rel (HostAlike i) o o' ∧ pre m := by
  refine coupled_store hstable fun m s hsame hpre => ?_
  obtain ⟨o, hanswer, hrel⟩ := hsame.getHost hkey
  rw [hanswer]
  exact ⟨.ok ⟨hrel, hpre⟩, hsame⟩

theorem coupled_patchHost (hkey : IsNamed key) {pre : Memory → Prop}
    (hstable : ∀ m m', Writes m m' → pre m → pre m') (n : Nat) (patch : HostPatch) :
    Coupled w pre (store (.patchHost key (some n.repr) patch))
      (store (.patchHost key (some (i.version n)) patch)) fun _ _ => pre := by
  refine coupled_store hstable fun m s hsame hpre => ?_
  obtain ⟨hresult, hafter⟩ := hsame.patchHost hkey n patch
  exact ⟨hresult.mono fun _ _ _ => hstable _ _ (.single (.call m _)) hpre, hafter⟩

theorem coupled_setImage {r : HostReference} (hkey : IsNamed r.key) (url : String) :
    Coupled w (fun _ => True) (setImage r url) (setImage r url) fun x y _ => x = y := by
  refine (coupled_getHost hkey always).bind fun o o' => coupled_of_fact fun hrel => ?_
  cases hrel with
  | none => exact coupled_fail _
  | @some host _ hhost =>
    obtain ⟨n, hversion, rfl⟩ := hhost
    dsimp only [Host.withVersion]
    split
    · exact coupled_pure fun _ _ => rfl
    · refine (coupled_note _).bind fun _ _ => ?_
      rw [hversion]
      exact (coupled_patchHost hkey always n _).bind fun _ _ => coupled_pure fun _ _ => rfl

theorem coupled_clearImage {r : HostReference} (hkey : IsNamed r.key) {pre : Memory → Prop}
    (hstable : ∀ m m', Writes m m' → pre m → pre m') :
    Coupled w pre (clearImage r) (clearImage r) fun x y m => x = y ∧ pre m := by
  refine (coupled_getHost hkey hstable).bind fun o o' => coupled_of_fact fun hrel => ?_
  cases hrel with
  | none => exact (coupled_note _).bind fun _ _ => coupled_pure fun _ hm => ⟨rfl, hm⟩
  | @some host _ hhost =>
    obtain ⟨n, hversion, rfl⟩ := hhost
    dsimp only [Host.withVersion]
    by_cases hclear : host.spec.image.isNone = true
    · simp only [if_pos hclear]
      exact coupled_pure fun _ hm => ⟨rfl, hm⟩
    · simp only [if_neg hclear]
      refine (coupled_note _).bind fun _ _ => ?_
      rw [hversion]
      exact (coupled_patchHost hkey hstable n _).bind fun _ _ => coupled_pure fun _ hm => ⟨rfl, hm⟩

theorem coupled_releaseHost (hreferences : c.ReferencesNamed) {pre : Memory → Prop}
    (hstable : ∀ m m', Writes m m' → pre m → pre m') :
    Coupled w pre (releaseHost c) (releaseHost c) fun _ _ => pre := by
  unfold releaseHost
  cases hreference : c.spec.bareMetalHostRef with
  | none => exact coupled_pure fun _ => id
  | some r =>
    refine (coupled_clearImage (hreferences.host r hreference) hstable).bind fun x y =>
      coupled_of_fact fun heq => ?_
    subst heq
    cases x with
    | missing => exact coupled_note _
    | cleared => exact coupled_pure fun _ => id
    | alreadyClear => exact coupled_pure fun _ => id

theorem coupled_patchFinalizers (hkey : IsNamed key) {n : Nat}
    (hversion : c.metadata.resourceVersion = some n.repr) {list : List String}
    (hlast : list = [] → c.metadata.isDeleting = true ∧ c.metadata.finalizerList ≠ []) :
    Coupled w (Remembers key c) (store (.patchFinalizers key (some n.repr) list))
      (store (.patchFinalizers key (some (i.version n)) list)) fun _ _ _ => True := by
  refine coupled_store (fun _ _ hwrites h => h.writes hwrites) fun m s hsame hremembers => ?_
  have hstored : list = [] → ∀ c', m.configs.get? key = some c' →
      c'.metadata.resourceVersion = some n.repr →
        c'.metadata.isDeleting = true ∧ c'.metadata.finalizerList ≠ [] := by
    intro hempty c' hget hversion'
    obtain rfl := hremembers.eq_of_version hget (hversion'.trans hversion.symm)
    exact hlast hempty
  obtain ⟨hresult, hafter⟩ := hsame.patchFinalizers hkey n list hstored
  exact ⟨hresult.mono fun _ _ _ => trivial, hafter⟩

theorem coupled_ensureFinalizer (hkey : IsNamed c.key) {n : Nat}
    (hversion : c.metadata.resourceVersion = some n.repr) :
    Coupled w (Remembers c.key c) (ensureFinalizer c)
      (ensureFinalizer (c.withVersion (i.version n))) fun x y _ => x = y := by
  have hsame : (c.withVersion (i.version n)).hasFinalizer = c.hasFinalizer := rfl
  unfold ensureFinalizer
  rw [hsame]
  cases c.hasFinalizer with
  | true => exact coupled_pure fun _ _ => rfl
  | false =>
    refine (coupled_note _).bind fun _ _ => ?_
    rw [hversion]
    exact (coupled_patchFinalizers hkey hversion (by simp)).bind fun _ _ =>
      coupled_pure fun _ _ => rfl

theorem coupled_releaseFinalizer (hkey : IsNamed c.key) {n : Nat}
    (hversion : c.metadata.resourceVersion = some n.repr)
    (hdeleting : c.metadata.isDeleting = true) (hguarded : c.hasFinalizer = true) :
    Coupled w (Remembers c.key c) (releaseFinalizer c)
      (releaseFinalizer (c.withVersion (i.version n))) fun x y _ => x = y := by
  have hlast : c.metadata.finalizerList ≠ [] := by
    intro hempty
    simp [ClusterConfig.hasFinalizer, hempty] at hguarded
  unfold releaseFinalizer
  refine (coupled_note _).bind fun _ _ => ?_
  rw [hversion]
  exact (coupled_patchFinalizers hkey hversion fun _ => ⟨hdeleting, hlast⟩).bind fun _ _ =>
    coupled_pure fun _ _ => rfl

theorem removeExport_sameReply (dataDir : Path) (key : ObjectKey) :
    (removeExport dataDir key).Only SameReply :=
  (removeExport_only dataDir key).mono fun q hq => by cases hq <;> trivial

theorem exportConfig_sameReply (dataDir : Path) (hreferences : c.ReferencesNamed) :
    (exportConfig dataDir c).Only SameReply :=
  .bind (collect_only hreferences.secrets) fun artifacts =>
    .bind (only_file trivial) fun _ =>
      .bind (withWriteLock_only trivial (fun _ => ⟨trivial, trivial⟩)
        (writeArtifacts_only (fun _ => trivial) (fun _ _ => trivial) artifacts)) fun written =>
        lockedOutcome_only (fun _ => trivial) _ written

theorem coupled_terminate (dataDir : Path) (hreferences : c.ReferencesNamed)
    (hkey : IsNamed c.key) {n : Nat} (hversion : c.metadata.resourceVersion = some n.repr)
    (hdeleting : c.metadata.isDeleting = true) :
    Coupled w (Remembers c.key c) (terminate dataDir c)
      (terminate dataDir (c.withVersion (i.version n))) fun x y _ => x = y := by
  have hsame : (c.withVersion (i.version n)).hasFinalizer = c.hasFinalizer := rfl
  unfold terminate
  rw [hsame]
  cases hguarded : c.hasFinalizer with
  | false => exact coupled_pure fun _ _ => rfl
  | true =>
    have hstable (m m' : Memory) (hwrites : Writes m m') (h : Remembers c.key c m) :
        Remembers c.key c m' := h.writes hwrites
    refine (coupled_only (removeExport_sameReply dataDir c.key) hstable).bind fun x y =>
      coupled_of_fact fun heq => ?_
    subst heq
    split
    · exact coupled_pure fun _ _ => rfl
    · exact (coupled_releaseHost hreferences hstable).bind fun _ _ =>
        coupled_releaseFinalizer hkey hversion hdeleting hguarded

theorem coupled_lifecycleStep (dataDir : Path) (hreferences : c.ReferencesNamed)
    (hkey : IsNamed c.key) {n : Nat} (hversion : c.metadata.resourceVersion = some n.repr) :
    Coupled w (Remembers c.key c) (lifecycleStep dataDir c)
      (lifecycleStep dataDir (c.withVersion (i.version n))) fun x y _ => x = y := by
  have hsame : (c.withVersion (i.version n)).metadata.isDeleting = c.metadata.isDeleting := rfl
  unfold lifecycleStep
  rw [hsame]
  cases hdeleting : c.metadata.isDeleting with
  | true => exact coupled_terminate dataDir hreferences hkey hversion hdeleting
  | false => exact coupled_ensureFinalizer hkey hversion

theorem coupled_converge (ctx : ReconcileContext) (key : ObjectKey)
    (hreferences : c.ReferencesNamed) (n : Nat) :
    Coupled w (fun _ => True) (converge ctx key c)
      (converge ctx key (c.withVersion (i.version n))) fun x y _ => x = y := by
  have hexport : exportConfig ctx.dataDir (c.withVersion (i.version n)) =
      exportConfig ctx.dataDir c := rfl
  have hhost : syncHost ctx.serviceUrl key (c.withVersion (i.version n)) =
      syncHost ctx.serviceUrl key c := rfl
  have hsync : Coupled w (fun _ => True) (syncHost ctx.serviceUrl key c)
      (syncHost ctx.serviceUrl key c) fun _ _ _ => True := by
    unfold syncHost
    cases hreference : c.spec.bareMetalHostRef with
    | none => exact coupled_pure fun _ => id
    | some r =>
      exact (coupled_setImage (hreferences.host r hreference) _).bind fun _ _ =>
        coupled_pure fun _ _ => trivial
  unfold converge
  rw [hexport, hhost]
  refine (coupled_only (exportConfig_sameReply ctx.dataDir hreferences) always).bind fun x y =>
    coupled_of_fact fun heq => ?_
  subst heq
  split
  · exact coupled_pure fun _ _ => rfl
  · exact hsync.bind fun _ _ => (coupled_note _).bind fun _ _ => coupled_pure fun _ _ => rfl

theorem coupled_getConfig (hkey : IsNamed key) :
    Coupled w (fun _ => True) (store (.getConfig key)) (store (.getConfig key)) fun o o' m =>
      (Option.Rel (ConfigAlike i) o o' ∧ ∀ c, o = some c → c.key = key) ∧
        ∀ c, o = some c → Remembers key c m := by
  refine coupled_store always fun m s hsame _ => ?_
  obtain ⟨o, hanswer, hrel⟩ := hsame.getConfig hkey
  rw [hanswer]
  exact ⟨.ok ⟨⟨hrel, fun c hget => hsame.reachable.keyed key c hget⟩,
    fun c hget => ⟨m, hsame.reachable, hget, .refl⟩⟩, hsame⟩

/-- A reconcile comes to the same in both worlds. -/
theorem coupled_reconcile (ctx : ReconcileContext) (hkey : IsNamed key) :
    Coupled w (fun _ => True) (reconcile ctx key) (reconcile ctx key) fun x y _ => x = y := by
  refine (coupled_note _).bind fun _ _ => (coupled_getConfig hkey).bind fun o o' =>
    coupled_of_fact fun hfound => ?_
  obtain ⟨hrel, hkeyed⟩ := hfound
  cases hrel with
  | none => exact coupled_pure fun _ _ => rfl
  | @some c _ hc =>
    obtain ⟨hreferences, n, hversion, rfl⟩ := hc
    obtain rfl : c.key = key := hkeyed c rfl
    have hstep : Coupled w (fun m => ∀ c', some c = some c' → Remembers c.key c' m)
        (lifecycleStep ctx.dataDir c) (lifecycleStep ctx.dataDir (c.withVersion (i.version n)))
        fun x y _ => x = y ∧ True :=
      (coupled_lifecycleStep ctx.dataDir hreferences hkey hversion).mono (fun _ h => h c rfl)
        fun _ _ _ heq => ⟨heq, trivial⟩
    refine hstep.bind fun x y => coupled_of_fact fun heq => ?_
    subst heq
    cases x with
    | halt outcome => exact coupled_pure fun _ _ => rfl
    | proceed => exact coupled_converge ctx c.key hreferences n

end Parts

/-- Two runs that make no difference: results, files and objects are the same. -/
structure RunsAlike (i : Interface)
    (x : Except Error Outcome × (Memory × Nat) × FileSystem)
    (y : Except Error Outcome × (ApiServer × Nat) × FileSystem) : Prop where
  result : EndsAlike Eq x.1 y.1
  objects : Mirrors i x.2.1.1 y.2.1.1
  files : x.2.2 = y.2.2

/-- A reconcile over a server ends as over a cluster in memory with the same objects, whatever
others write to both between its store calls: with the same outcome, or with errors that make no
difference, and with the same files and objects. -/
theorem reconcile_alike {i : Interface} (w : Schedule i) (ctx : ReconcileContext)
    {key : ObjectKey} (hkey : IsNamed key) {m : Memory} {s : ApiServer} (hsame : Mirrors i m s)
    (fs : FileSystem) :
    RunsAlike i ((reconcile ctx key).run w.inMemory ((m, 0), fs))
      ((reconcile ctx key).run w.onServer ((s, 0), fs)) := by
  obtain ⟨hafter, hends⟩ := coupled_reconcile (w := w) ctx hkey ((m, 0), fs) ((s, 0), fs)
    ⟨hsame, rfl, rfl⟩ trivial
  exact ⟨hends, hafter.same, hafter.files⟩

private def countingServer : Interface where
  version := Nat.repr
  keeps d := d.Fits maxDepth
  write := Value.text
  explain q := q.verb ++ " " ++ q.target ++ " refused"
  version_injective _ _ h := repr_inj h
  keeps_fitting _ h := h
  keeps_merge _ _ := fits_merge
  read_write _ := read_text

private def relocatedConfig : ClusterConfig where
  metadata := { name := some "site", space := some "edge", finalizers := some [ourFinalizer] }
  spec := {
    relocation := { domain := "example.com", pullSecretRef := some ⟨"pull", "edge"⟩ }
    bareMetalHostRef := some ⟨"node", "edge"⟩ }

private def pulledSecret : Secret where
  metadata := { name := some "pull", space := some "edge" }
  type := some "Opaque"

private def idleHost : Host where
  metadata := { name := some "node", space := some "edge" }
  spec := {}

private def configDocument : Value := .object [
  ("metadata", .object [("name", .string "site"), ("namespace", .string "edge"),
    ("resourceVersion", .string "1"), ("finalizers", .array [.string ourFinalizer])]),
  ("spec", .object [("domain", .string "example.com"),
    ("pullSecretRef", .object [("name", .string "pull"), ("namespace", .string "edge")]),
    ("bareMetalHostRef", .object [("name", .string "node"), ("namespace", .string "edge")])])]

private def secretDocument : Value := .object [
  ("metadata", .object [("name", .string "pull"), ("namespace", .string "edge"),
    ("resourceVersion", .string "2")]),
  ("type", .string "Opaque")]

private def hostDocument : Value := .object [
  ("metadata", .object [("name", .string "node"), ("namespace", .string "edge"),
    ("resourceVersion", .string "3")]),
  ("spec", .object [("online", .bool false)])]

private def relocatedMemory : Memory :=
  ((({} : Memory).insertConfig relocatedConfig).insertSecret pulledSecret).insertHost idleHost

private def relocatedServer : ApiServer where
  objects := ((Table.empty.insert (configTarget relocatedConfig.key) configDocument).insert
    (secretTarget pulledSecret.key) secretDocument).insert (hostTarget idleHost.key) hostDocument
  issued := 3

private theorem same_relocated : Mirrors countingServer relocatedMemory relocatedServer := by
  have hconfig : ItemAt countingServer
      (.config { relocatedConfig with metadata := stamped relocatedConfig.metadata 1 })
      configDocument := by
    refine ⟨⟨_, rfl⟩, by simp [countingServer, configDocument, maxDepth], ⟨1, rfl, rfl⟩, ?_, ?_⟩
    · rintro r hr
      obtain rfl := Option.some.inj hr
      decide
    · rintro e he
      obtain rfl := List.mem_singleton.1 he
      decide
  have hsecret : ItemAt countingServer
      (.secret { pulledSecret with metadata := stamped pulledSecret.metadata 2 })
      secretDocument :=
    ⟨by simp [countingServer, secretDocument, maxDepth], rfl⟩
  have hhost : ItemAt countingServer
      (.host { idleHost with metadata := stamped idleHost.metadata 3 }) hostDocument := by
    refine ⟨⟨_, rfl, _, rfl, ?_⟩, by simp [countingServer, hostDocument, maxDepth], 3, rfl, rfl⟩
    intro v hv
    cases hv
  have h1 := (Mirrors.empty countingServer).insert (a := .config relocatedConfig.key) (by decide)
    (.insertConfig _ relocatedConfig) (replaces_insertConfig _ _) rfl hconfig
  have h2 := h1.insert (a := .secret pulledSecret.key) (by decide)
    (.insertSecret _ pulledSecret) (replaces_insertSecret _ _) rfl hsecret
  exact h2.insert (a := .host idleHost.key) (by decide)
    (.insertHost _ idleHost) (replaces_insertHost _ _) rfl hhost

private def removal : Schedule countingServer where
  memory n m := if n = 3 then m.removeHost ⟨"edge", "node"⟩ else m
  server n s :=
    if n = 3 then { s with objects := s.objects.erase (hostTarget ⟨"edge", "node"⟩) } else s
  writes n m := by
    split
    · exact .single (.removeHost m _)
    · exact .refl
  same n m s h := by
    split
    · exact h.issued ▸ h.removeHost (by decide)
    · exact h

/-- A host that is taken away while it is being patched. -/
theorem reconcile_alike_amid_removal :
    IsNamed relocatedConfig.key ∧ Mirrors countingServer relocatedMemory relocatedServer ∧
      RunsAlike countingServer
        ((reconcile ⟨⟨true, ["data"]⟩, "http://images"⟩ relocatedConfig.key).run removal.inMemory
          ((relocatedMemory, 0), {}))
        ((reconcile ⟨⟨true, ["data"]⟩, "http://images"⟩ relocatedConfig.key).run removal.onServer
          ((relocatedServer, 0), {})) :=
  ⟨by decide, same_relocated, reconcile_alike removal _ (by decide) same_relocated _⟩

end Relocation
