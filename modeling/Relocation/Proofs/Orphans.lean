import Relocation.Proofs.Files.Grounds
import Relocation.Proofs.History
import Relocation.Proofs.Patches
import Relocation.Proofs.Pools
import Relocation.Proofs.Requests
import Relocation.Proofs.Runs

/-!
No export without a guarded config. Reconciles of many keys run beside each other, at most one of a
key at a time, on a cluster kept in memory and one tree of files; between any two of their requests
others change the cluster. As long as these use keys whose names are single parts of a path, a
config whose export directory exists is stored and guarded by our finalizer, in every state that
comes about (`stored_of_exported`). Other names lead into the directories of other keys
(`exported_unstored`).
-/

set_option autoImplicit false

namespace Relocation

open Files (FileSystem IoError Location Removal)
open Program Store

/-- What others do to the cluster and the files, with keys of some kind: they create a config where
none is stored, change a config without taking its deletion mark or our finalizer away, ask for the
deletion of one, do anything to hosts and secrets, and open, take and give back the locks of export
directories. -/
inductive Meddling (named : ObjectKey → Prop) (dataDir : Path) :
    Memory × FileSystem → Memory × FileSystem → Prop
  | create {m : Memory} {fs : FileSystem} {c : ClusterConfig} : named c.key →
      m.configs.get? c.key = none → Meddling named dataDir (m, fs) (m.insertConfig c, fs)
  | change {m : Memory} {fs : FileSystem} {old c : ClusterConfig} :
      m.configs.get? c.key = some old →
      (old.metadata.isDeleting = true → c.metadata.isDeleting = true) →
      (old.hasFinalizer = true → c.hasFinalizer = true) →
      Meddling named dataDir (m, fs) (m.insertConfig c, fs)
  | delete {m : Memory} {fs : FileSystem} (now : Time.Timestamp) (key : ObjectKey) :
      Meddling named dataDir (m, fs) (m.deleteConfig now key, fs)
  | objects {m : Memory} {fs : FileSystem} (hosts : Table ObjectKey Host)
      (secrets : Table ObjectKey Secret) :
      Meddling named dataDir (m, fs) ({ m with hosts := hosts, secrets := secrets }, fs)
  | openLock {m : Memory} {fs : FileSystem} (key : ObjectKey) : named key →
      Meddling named dataDir (m, fs)
        (m, (fs.answer (.openLock ((exportDirs dataDir key).lock.join lockFileName))).2)
  | locks {m : Memory} {fs : FileSystem} (held : List Nat) :
      Meddling named dataDir (m, fs) (m, { fs with held := held })

section Sound

variable {dataDir : Path} {d : Location} {k l : ObjectKey} {s t u : Memory × FileSystem}

/-- What is true of the cluster and the files at any time. -/
structure Sound (dataDir : Path) (d : Location) (s : Memory × FileSystem) : Prop where
  grounds : s.2.Grounds dataDir d
  keyed : ∀ k c, s.1.configs.get? k = some c → c.key = k ∧ k.Placeable

/-- Nothing is exported for a key. -/
def Unexported (d : Location) (k : ObjectKey) (s : Memory × FileSystem) : Prop :=
  s.2.entries.get? (d ++ k.place) = none

/-- A step that takes nothing away from what the reconcile of a key has found out. -/
structure Respects (dataDir : Path) (d : Location) (k : ObjectKey) (s t : Memory × FileSystem) :
    Prop where
  sound : Sound dataDir d s → Sound dataDir d t
  guarded : Sound dataDir d s → Guarded k s → Guarded k t
  unexported : Sound dataDir d s → Unexported d k s → Unexported d k t

theorem Respects.refl : Respects dataDir d k s s := ⟨id, fun _ => id, fun _ => id⟩

theorem Respects.trans (h : Respects dataDir d k s t) (h' : Respects dataDir d k t u) :
    Respects dataDir d k s u where
  sound hs := h'.sound (h.sound hs)
  guarded hs hk := h'.guarded (h.sound hs) (h.guarded hs hk)
  unexported hs hk := h'.unexported (h.sound hs) (h.unexported hs hk)

private theorem Sound.of_others (hs : Sound dataDir d s)
    (h : ∀ l, l ≠ k → Respects dataDir d l s t) : Sound dataDir d t := by
  refine (h ⟨k.space ++ "x", k.name⟩ ?_).sound hs
  intro heq
  have hspace : k.space ++ "x" = k.space := congrArg ObjectKey.space heq
  simpa using congrArg String.length hspace

/-- The reconcile of a key among others: they respect what it has found out, and it respects what
they have found out and leaves no export unguarded. -/
def among (dataDir : Path) (d : Location) (k : ObjectKey) : Surroundings (Memory × FileSystem) where
  others := Respects dataDir d k
  answers := Answered
  allowed s _ _ t := Sound dataDir d t ∧ (Unexported d k t ∨ Guarded k t) ∧
    ∀ l, l ≠ k → Respects dataDir d l s t

theorem Respects.of_sound (h : Sound dataDir d s → Respects dataDir d k s t) :
    Respects dataDir d k s t where
  sound hs := (h hs).sound hs
  guarded hs := (h hs).guarded hs
  unexported hs := (h hs).unexported hs

private theorem place_ne {names : List String} (hne : l ≠ k) :
    ¬l.place <+: k.place ++ names := by
  intro hprefix
  obtain ⟨rest, hrest⟩ := hprefix
  obtain ⟨hspace, hname, -⟩ : l.space = k.space ∧ l.name = k.name ∧ _ := by
    simpa [ObjectKey.place] using hrest
  exact hne (by cases l; cases k; simp_all)

private theorem respects_of_change {m : Memory} {fs fs' : FileSystem}
    {places : List String → Prop} (hc : FileSystem.Change d places fs fs')
    (hl : ¬places l.place) : Respects dataDir d l (m, fs) (m, fs') where
  sound hs := ⟨hc.grounds hs.grounds, hs.keyed⟩
  guarded _ := id
  unexported _ hnone := by
    cases hget : fs'.entries.get? (d ++ l.place) with
    | none => exact hget
    | some entry =>
      rcases hc.news l.place (by simp [hget]) with hold | hnew
      · exact absurd hnone hold
      · exact absurd hnew hl

private theorem respects_of_configs {m m' : Memory} {fs : FileSystem}
    (heq : m'.configs = m.configs) : Respects dataDir d l (m, fs) (m', fs) where
  sound hs := ⟨hs.grounds, by rw [heq]; exact hs.keyed⟩
  guarded _ := by
    rintro ⟨c, hc, hguarded⟩
    exact ⟨c, by rw [heq]; exact hc, hguarded⟩
  unexported _ := id

private theorem respects_insert {m m' : Memory} {fs : FileSystem} {c : ClusterConfig}
    (heq : m'.configs = m.configs.insert k c) (hkey : c.key = k) (hk : k.Placeable)
    (hguarded : l = k → ∀ old, m.configs.get? k = some old → old.hasFinalizer = true →
      c.hasFinalizer = true) :
    Respects dataDir d l (m, fs) (m', fs) where
  sound hs := by
    refine ⟨hs.grounds, fun k' c' hget => ?_⟩
    by_cases hk' : k' = k
    · subst hk'
      obtain rfl : c = c' := by simpa [heq] using hget
      exact ⟨hkey, hk⟩
    · rw [heq, Table.get?_insert_of_ne _ c hk'] at hget
      exact hs.keyed k' c' hget
  guarded _ := by
    rintro ⟨old, hold, hfinalizer⟩
    by_cases hl : l = k
    · subst hl
      exact ⟨c, by simp [heq], hguarded rfl old hold hfinalizer⟩
    · exact ⟨old, by rwa [heq, Table.get?_insert_of_ne _ c hl], hfinalizer⟩
  unexported _ := id

private theorem respects_erase {m m' : Memory} {fs : FileSystem}
    (heq : m'.configs = m.configs.erase k)
    (hfree : l = k → ¬Guarded k (m, fs)) :
    Respects dataDir d l (m, fs) (m', fs) where
  sound hs := by
    refine ⟨hs.grounds, fun k' c' hget => hs.keyed k' c' ?_⟩
    by_cases hk' : k' = k
    · simp [heq, hk'] at hget
    · rwa [heq, Table.get?_erase_of_ne _ hk'] at hget
  guarded _ hg := by
    by_cases hl : l = k
    · exact absurd (hl ▸ hg) (hfree hl)
    · obtain ⟨old, hold, hfinalizer⟩ := hg
      exact ⟨old, by rwa [heq, Table.get?_erase_of_ne _ hl], hfinalizer⟩
  unexported _ := id

end Sound

section Meddling

variable {dataDir : Path} {d : Location} {k l : ObjectKey} {s t : Memory × FileSystem}

private theorem respects_openLock (hk : k.Placeable) {m : Memory} {fs : FileSystem} :
    Respects dataDir d l (m, fs)
      (m, (fs.answer (.openLock ((exportDirs dataDir k).lock.join lockFileName))).2) := by
  refine .of_sound fun hs => ?_
  have opened := FileSystem.change_openLock hs.grounds (by simp [ObjectKey.place])
    (pathNames_place hk pathNames_lock)
  refine respects_of_change opened ?_
  simp [ObjectKey.place]

private theorem respects_delete {m : Memory} {fs : FileSystem} (now : Time.Timestamp)
    (key : ObjectKey) : Respects dataDir d l (m, fs) (m.deleteConfig now key, fs) := by
  rcases deleteConfig_configs m now key with hsame | ⟨c, hget, ⟨hempty, herased⟩ | ⟨_, hmarked⟩⟩
  · exact respects_of_configs hsame
  · refine respects_erase herased fun _ => ?_
    rintro ⟨c', hget', hfinalizer⟩
    obtain rfl : c = c' := Option.some.inj (hget.symm.trans hget')
    simp [ClusterConfig.hasFinalizer, hempty] at hfinalizer
  · refine .of_sound fun hs => respects_insert hmarked ?_ (hs.keyed key c hget).2 ?_
    · exact (hs.keyed key c hget).1
    · intro _ old hold hfinalizer
      obtain rfl : c = old := Option.some.inj (hget.symm.trans hold)
      exact hfinalizer

theorem meddling_respects (h : Meddling ObjectKey.Placeable dataDir s t) :
    Respects dataDir d l s t := by
  cases h with
  | create hk hnew => exact respects_insert rfl rfl hk (by simp [hnew])
  | change hold _ hguarded =>
    refine .of_sound fun hs => respects_insert rfl rfl (hs.keyed _ _ hold).2 ?_
    intro _ old hget hfinalizer
    obtain rfl := Option.some.inj (hold.symm.trans hget)
    exact hguarded hfinalizer
  | delete now key => exact respects_delete now key
  | objects hosts secrets => exact respects_of_configs rfl
  | openLock _ hk => exact respects_openLock hk
  | @locks m fs held =>
    refine .of_sound fun hs => ?_
    have same : FileSystem.Change d (fun _ => False) fs { fs with held := held } :=
      .of_entries hs.grounds.toTidy rfl
    exact respects_of_change same id

end Meddling

section Requests

variable {dataDir : Path} {d : Location} {k l : ObjectKey} {s t : Memory × FileSystem} {q : Request}
  {reply : q.Reply}

/-- Whether a request leaves finalizers alone and puts nothing new at the place of any key. -/
def Calm (dataDir : Path) (d : Location) (k : ObjectKey) : Request → Prop
  | .store (.patchFinalizers _ _ _) => False
  | .file (.makeDirs _) => False
  | .file (.openLock p) => p = dataDir.under (k.place ++ [lockFileName])
  | .file (.write p _) =>
    ∃ artifact : Artifact, p = dataDir.under (k.place ++ ["files", artifact.fileName])
  | .file (.remove step) => step = .removeDirPath (dataDir.under k.place) ∨
    ∃ r, r ≠ [] ∧ (step = .unlink (d ++ r) ∨ step = .removeDir (d ++ r))
  | _ => True

private theorem configs_of_answer {m : Memory} {call : StoreCall}
    (h : Calm dataDir d k (.store call)) : (m.answer call).2.configs = m.configs := by
  cases call with
  | patchFinalizers key version finalizers => exact h.elim
  | patchHost key version patch => exact configs_answer_patchHost m key version patch
  | _ => rfl

private theorem change_of_calm {m : Memory} {fs : FileSystem} {call : FileCall}
    (hk : k.Placeable) (hq : Calm dataDir d k (.file call)) (hs : Sound dataDir d (m, fs)) :
    FileSystem.Change d (fun r => 3 < r.length) fs (fs.answer call).2 := by
  have tidy := hs.grounds.toTidy
  cases call with
  | stat p => exact .refl tidy
  | makeDirs p => exact hq.elim
  | openLock p =>
    obtain rfl : p = _ := hq
    refine (FileSystem.change_openLock hs.grounds (by simp [ObjectKey.place])
      (pathNames_place hk pathNames_lock)).mono ?_
    rintro r rfl
    simp [ObjectKey.place]
  | tryLock inode =>
    refine .of_entries tidy ?_
    simp only [FileSystem.answer, FileSystem.tryLock]
    split <;> rfl
  | release inode => exact .of_entries tidy rfl
  | read p => exact .refl tidy
  | write p content =>
    obtain ⟨artifact, rfl⟩ := hq
    refine (FileSystem.change_write hs.grounds (by simp [ObjectKey.place])
      (pathNames_place hk (pathNames_artifact artifact))).mono ?_
    rintro r rfl
    simp [ObjectKey.place]
  | planRemoval p => exact .refl tidy
  | remove step =>
    rcases hq with rfl | ⟨r, hr, hstep⟩
    · exact (FileSystem.removeDirPath_under hs.grounds (by simp [ObjectKey.place])
        (pathNames_of_placeable hk)).1.mono fun _ => False.elim
    · exact (FileSystem.change_remove tidy hr hstep).mono fun _ => False.elim

theorem calm_respects (hk : k.Placeable) (hq : Calm dataDir d k q)
    (h : Answered s q reply t) : Respects dataDir d l s t := by
  cases h with
  | store call => exact respects_of_configs (configs_of_answer hq)
  | refused call e => exact .refl
  | file call =>
    refine .of_sound fun hs => respects_of_change (change_of_calm hk hq hs) ?_
    simp [ObjectKey.place]
  | note notice => exact .refl

theorem makeDirs_respects (hk : k.Placeable) (hl : l ≠ k) {r : Except IoError Unit}
    (h : Answered s (.file (.makeDirs (dataDir.under (k.place ++ ["files"])))) r t) :
    Respects dataDir d l s t := by
  cases h with
  | @file m fs call =>
    refine .of_sound fun hs => ?_
    have made : FileSystem.Change d _ fs (fs.makeDirs Files.privateDirMode _).2 :=
      FileSystem.change_makeDirs hs.grounds (by simp [ObjectKey.place])
        (pathNames_place hk pathNames_files)
    exact respects_of_change made fun hplace => place_ne hl hplace.2

theorem patchFinalizers_respects {version : Option String} {finalizers : List String}
    {r : Except Error Unit} (hl : l = k → ourFinalizer ∈ finalizers)
    (h : Answered s (.store (.patchFinalizers k version finalizers)) r t) :
    Respects dataDir d l s t := by
  cases h with
  | refused call e => exact .refl
  | @store m fs call =>
    rcases answer_patchFinalizers_configs m k version finalizers with
      hsame | ⟨c, hget, ⟨rfl, herased⟩ | ⟨version', hpatched⟩⟩
    · exact respects_of_configs hsame
    · exact respects_erase herased fun heq => nomatch hl heq
    · refine .of_sound fun hs => ?_
      refine respects_insert hpatched (hs.keyed k c hget).1 (hs.keyed k c hget).2 ?_
      intro heq _ _ _
      exact hasFinalizer_withFinalizers (hl heq) c version'

end Requests

section Programs

variable {ctx : ReconcileContext} {dataDir : Path} {d : Location} {k : ObjectKey}
  {s t u : Memory × FileSystem}

/-- A finding about the cluster and the files that others respect and that leaves no export
unguarded. -/
structure Finding (dataDir : Path) (d : Location) (k : ObjectKey)
    (inv : Memory × FileSystem → Prop) : Prop where
  sound : ∀ {s}, inv s → Sound dataDir d s
  safe : ∀ {s}, inv s → Unexported d k s ∨ Guarded k s
  kept : ∀ {s t}, inv s → Respects dataDir d k s t → inv t

private theorem finding_guarded : Finding dataDir d k fun s => Sound dataDir d s ∧ Guarded k s where
  sound h := h.1
  safe h := .inr h.2
  kept h ht := ⟨ht.sound h.1, ht.guarded h.1 h.2⟩

private theorem finding_unexported :
    Finding dataDir d k fun s => Sound dataDir d s ∧ Unexported d k s where
  sound h := h.1
  safe h := .inl h.2
  kept h ht := ⟨ht.sound h.1, ht.unexported h.1 h.2⟩

private theorem finding_safe :
    Finding dataDir d k fun s => Sound dataDir d s ∧ (Unexported d k s ∨ Guarded k s) where
  sound h := h.1
  safe h := h.2
  kept h ht := ⟨ht.sound h.1, h.2.imp (ht.unexported h.1) (ht.guarded h.1)⟩

variable {inv : Memory × FileSystem → Prop}

private theorem Finding.calm (hf : Finding dataDir d k inv) (hk : k.Placeable) {q : Request}
    {reply : q.Reply} (hs : inv s) (hq : Calm dataDir d k q) (h : Answered s q reply t) :
    (among dataDir d k).allowed s q reply t ∧ inv t := by
  have ht := hf.kept hs (calm_respects hk hq h)
  exact ⟨⟨hf.sound ht, hf.safe ht, fun l _ => calm_respects hk hq h⟩, ht⟩

private theorem Finding.carried (hf : Finding dataDir d k inv) (hk : k.Placeable) :
    Carried (among dataDir d k) (Calm dataDir d k) inv := ⟨hf.kept, hf.calm hk⟩

private theorem calm_of_hosting {q : Request} (h : q.Hosting) : Calm dataDir d k q := by
  cases q with
  | store call => cases call <;> trivial
  | file call => exact h.elim
  | note notice => trivial

private theorem keeps_converge {c : ClusterConfig} (hk : k.Placeable) (hkey : c.key = k)
    (hs : Sound ctx.dataDir d s ∧ Guarded k s) :
    (converge ctx k c).Keeps (among ctx.dataDir d k) (fun _ _ => True) s := by
  have calm_or_make {q : Request}
      (hq : q.Exporting (exportDirs ctx.dataDir c.key) ∨ q.Hosting) :
      Calm ctx.dataDir d k q ∨
        q = .file (.makeDirs (ctx.dataDir.under (k.place ++ ["files"]))) := by
    rw [hkey] at hq
    rcases hq with hq | hq
    · cases hq with
      | makeDirs => exact .inr rfl
      | openLock => exact .inl rfl
      | write artifact content => exact .inl ⟨artifact, rfl⟩
      | _ => exact .inl trivial
    · exact .inl (calm_of_hosting hq)
  suffices hkeeps : (converge ctx k c).Keeps (among ctx.dataDir d k)
      (fun _ s => Sound ctx.dataDir d s ∧ Guarded k s) s from hkeeps.mono fun _ _ _ => trivial
  refine (converge_only ctx k c).keeps hs finding_guarded.kept ?_
  intro a q reply b ha hq hanswer
  rcases calm_or_make hq with hcalm | rfl
  · exact finding_guarded.calm hk ha hcalm hanswer
  · have respects (l : ObjectKey) (hl : l ≠ k) : Respects ctx.dataDir d l a b :=
      makeDirs_respects hk hl hanswer
    have hb : Sound ctx.dataDir d b := ha.1.of_others respects
    have hguarded : Guarded k b := by
      cases hanswer
      exact ha.2
    exact ⟨⟨hb, .inr hguarded, respects⟩, hb, hguarded⟩

private theorem keeps_removeAll (hk : k.Placeable) {before : List Removal}
    (hbefore : ∀ step ∈ before,
      ∃ r, r ≠ [] ∧ (step = .unlink (d ++ r) ∨ step = .removeDir (d ++ r)))
    (hs : Sound dataDir d s ∧ Guarded k s) :
    (removeAll (before ++ [.removeDirPath (dataDir.under k.place)])).Keeps (among dataDir d k)
      (fun r t => (Sound dataDir d t ∧ Guarded k t) ∧ (r = .ok () → Unexported d k t)) s := by
  induction before generalizing s with
  | nil =>
    refine (finding_guarded.carried hk).ask hs (.inl rfl) fun t reply u ht hanswer hu => ?_
    obtain ⟨m, fs⟩ := t
    cases hanswer with
    | file call =>
      have hgone := (FileSystem.removeDirPath_under ht.1.grounds (by simp [ObjectKey.place])
        (pathNames_of_placeable hk)).2
      generalize (fs.answer (.remove (.removeDirPath (dataDir.under k.place)))).1 = r at hgone ⊢
      cases r with
      | ok _ => exact ⟨hu, fun _ => hgone (.inl rfl)⟩
      | error e =>
        dsimp only [bind_def, Program.bind]
        split
        · rename_i hmissing
          obtain rfl : e = .notFound := by simpa [IoError.isNotFound] using hmissing
          exact ⟨hu, fun _ => hgone (.inr rfl)⟩
        · exact ⟨hu, by simp⟩
  | cons step rest ih =>
    refine (finding_guarded.carried hk).ask hs (.inr (hbefore step (by simp)))
      fun t reply u ht hanswer hu => ?_
    have later := ih (fun step hstep => hbefore step (by simp [hstep])) hu
    cases reply with
    | ok _ => exact later
    | error e =>
      dsimp only [bind_def, Program.bind]
      split
      · exact later
      · exact ⟨hu, by simp⟩

private theorem keeps_removeTree (hk : k.Placeable) (hs : Sound dataDir d s ∧ Guarded k s) :
    (removeTree (dataDir.under k.place)).Keeps (among dataDir d k)
      (fun r t => (Sound dataDir d t ∧ Guarded k t) ∧ (r = .ok () → Unexported d k t)) s := by
  refine (finding_guarded.carried hk).ask hs trivial fun t reply u ht hanswer hu => ?_
  cases hanswer with
  | @file m fs call =>
    cases hplan : fs.planRemoval (dataDir.under k.place) with
    | error e =>
      simp only [FileSystem.answer, hplan]
      exact ⟨hu, by simp⟩
    | ok steps =>
      obtain ⟨before, rfl, hbefore⟩ := FileSystem.planRemoval_under ht.1.grounds
        (by simp [ObjectKey.place]) (pathNames_of_placeable hk) hplan
      simp only [FileSystem.answer, hplan]
      exact keeps_removeAll hk hbefore hu

private theorem keeps_locked_removal (hk : k.Placeable)
    (hs : Sound dataDir d s ∧ Guarded k s) :
    (withWriteLock (dataDir.under k.place) do
      Program.note (.filesRemoved k)
      removeTree (dataDir.under k.place)).Keeps (among dataDir d k)
      (fun r t => (Sound dataDir d t ∧ Guarded k t) ∧ (r = .ok (some ()) → Unexported d k t))
      s := by
  refine (keeps_withWriteLock
    (fun r t => (Sound dataDir d t ∧ Guarded k t) ∧ (r = .ok () → Unexported d k t))
    hs finding_guarded.kept ?_ ?_ ?_ ?_).mono ?_
  · rintro r a b ⟨ha, hgone⟩ hab
    exact ⟨finding_guarded.kept ha hab, fun hr => hab.unexported ha.1 (hgone hr)⟩
  · rintro a q reply b ha (rfl | ⟨inode, rfl⟩) hanswer
    · exact finding_guarded.calm hk ha rfl hanswer
    · exact finding_guarded.calm hk ha trivial hanswer
  · rintro r a inode reply b ⟨ha, hgone⟩ hanswer
    have hq : Calm dataDir d k (.file (.release inode)) := trivial
    obtain ⟨allowed, hb⟩ := finding_guarded.calm hk ha hq hanswer
    exact ⟨allowed, hb, fun hr => (calm_respects hk hq hanswer).unexported ha.1 (hgone hr)⟩
  · exact fun t ht => (finding_guarded.carried hk).ask ht trivial fun _ _ u _ _ hu =>
      keeps_removeTree hk hu
  · rintro (e | _ | a) t ht
    · exact ⟨ht.elim id And.left, by simp⟩
    · exact ⟨ht, by simp⟩
    · exact ⟨ht.1, fun _ => ht.2 rfl⟩

private theorem keeps_removeExport (hk : k.Placeable) (hs : Sound dataDir d s ∧ Guarded k s) :
    (removeExport dataDir k).Keeps (among dataDir d k)
      (fun r t => (Sound dataDir d t ∧ Guarded k t) ∧
        (r = .ok .settled → Unexported d k t)) s := by
  refine (finding_guarded.carried hk).ask hs trivial fun t reply u ht hanswer hu => ?_
  cases hanswer with
  | @file m fs call =>
    have hgone := (FileSystem.stat_under ht.1.grounds (by simp [ObjectKey.place])
      (pathNames_of_placeable hk)).2
    have hstat : fs.answer (.stat (dataDir.under k.place)) =
      (fs.stat (dataDir.under k.place), fs) := rfl
    rw [show (exportDirs dataDir k).lock = dataDir.under k.place from rfl, hstat] at hu ⊢
    cases hfound : fs.stat (dataDir.under k.place) with
    | error e =>
      dsimp only [bind_def, Program.bind]
      split
      · rename_i hmissing
        obtain rfl : e = .notFound := by simpa [IoError.isNotFound] using hmissing
        exact ⟨hu, fun _ => hgone hfound⟩
      · exact ⟨hu, by simp⟩
    | ok _ =>
      refine (keeps_bind (f := lockedOutcome k)).2 ((keeps_locked_removal hk hu).mono ?_)
      rintro (e | _ | a) v ⟨hv, hremoved⟩
      · exact ⟨hv, by simp⟩
      · exact (finding_guarded.carried hk).ask hv trivial fun _ _ x _ _ hx => ⟨hx, by simp⟩
      · exact ⟨hv, fun _ => hremoved rfl⟩

private theorem keeps_patchFinalizers {version : Option String} {finalizers : List String}
    {outcome : Outcome} (hs : Sound dataDir d s ∧ (Unexported d k s ∨ Guarded k s))
    (hsafe : ourFinalizer ∈ finalizers ∨ Unexported d k s) :
    (do
      Program.store (.patchFinalizers k version finalizers)
      return .halt outcome : Program LifecycleStep).Keeps (among dataDir d k)
      (fun r _ => r ≠ .ok .proceed) s := by
  intro t ht reply u hu
  have hunder := finding_safe.kept hs ht
  have respects (l : ObjectKey) (hl : l ≠ k) : Respects dataDir d l t u :=
    patchFinalizers_respects (fun heq => absurd heq hl) hu
  have safe : Unexported d k u ∨ Guarded k u := by
    rcases hsafe with hours | hnone
    · exact (finding_safe.kept hunder (patchFinalizers_respects (fun _ => hours) hu)).2
    · have hnone' := ht.unexported hs.1 hnone
      cases hu <;> exact .inl hnone'
  refine ⟨⟨hunder.1.of_others respects, safe, respects⟩, ?_⟩
  cases reply <;> exact fun h => nomatch h

private theorem keeps_terminate {c : ClusterConfig} (hk : k.Placeable) (hkey : c.key = k)
    (hs : Sound dataDir d s ∧ (Unexported d k s ∨ Guarded k s))
    (hguarded : c.hasFinalizer = true → Guarded k s) :
    (terminate dataDir c).Keeps (among dataDir d k) (fun r _ => r ≠ .ok .proceed) s := by
  unfold terminate
  cases hfinalizer : c.hasFinalizer with
  | false => exact fun h => nomatch h
  | true =>
    rw [hkey]
    refine keeps_bind.2 ((keeps_removeExport hk ⟨hs.1, hguarded hfinalizer⟩).mono ?_)
    rintro (e | removed) t ⟨ht, hgone⟩
    · exact fun h => nomatch h
    · dsimp only [Then]
      split
      · exact fun h => nomatch h
      · rename_i hrequeue
        obtain rfl : removed = .settled := by simpa [Outcome.isRequeue] using hrequeue
        have hunexported := hgone rfl
        have releasing : (releaseHost c).Only (Calm dataDir d k) :=
          (releaseHost_only c).mono fun q hq => calm_of_hosting hq.1
        refine keeps_bind.2 (((finding_unexported.carried hk).only releasing
          ⟨ht.1, hunexported⟩).mono ?_)
        rintro (e | _) u hu
        · exact fun h => nomatch h
        · refine (finding_unexported.carried hk).ask hu trivial fun _ _ v _ _ hv => ?_
          rw [hkey]
          exact keeps_patchFinalizers ⟨hv.1, .inl hv.2⟩ (.inr hv.2)

private theorem keeps_ensureFinalizer {c : ClusterConfig} (hk : k.Placeable) (hkey : c.key = k)
    (hs : Sound dataDir d s ∧ (Unexported d k s ∨ Guarded k s))
    (hguarded : c.hasFinalizer = true → Guarded k s) :
    (ensureFinalizer c).Keeps (among dataDir d k)
      (fun r t => r = .ok .proceed → Sound dataDir d t ∧ Guarded k t) s := by
  unfold ensureFinalizer
  cases hfinalizer : c.hasFinalizer with
  | true => exact fun _ => ⟨hs.1, hguarded hfinalizer⟩
  | false =>
    refine (finding_safe.carried hk).ask hs trivial fun _ _ v _ _ hv => ?_
    rw [hkey]
    exact (keeps_patchFinalizers hv (.inl (by simp))).mono fun r _ hr heq => absurd heq hr

/-- A reconcile respects what others have found out and leaves no export unguarded. -/
theorem keeps_reconcile_among (ctx : ReconcileContext) (k : ObjectKey)
    (hs : Sound ctx.dataDir d s ∧ (Unexported d k s ∨ Guarded k s)) :
    (reconcile ctx k).Keeps (among ctx.dataDir d k) (fun _ _ => True) s := by
  have unchanged {t : Memory × FileSystem} {q : Request} {reply : q.Reply}
      (ht : Sound ctx.dataDir d t ∧ (Unexported d k t ∨ Guarded k t)) :
      (among ctx.dataDir d k).allowed t q reply t := ⟨ht.1, ht.2, fun _ _ => .refl⟩
  intro t ht _ u hu
  have hsafe := finding_safe.kept hs ht
  cases hu
  refine ⟨unchanged hsafe, ?_⟩
  intro v hv found w hw
  have hsafe := finding_safe.kept hsafe hv
  cases hw with
  | refused call e => exact ⟨unchanged hsafe, trivial⟩
  | @store m fs call =>
    refine ⟨unchanged hsafe, ?_⟩
    cases hget : m.configs.get? k with
    | none => simp only [Memory.answer, hget]; trivial
    | some c =>
      obtain ⟨hkey, hk⟩ := hsafe.1.keyed k c hget
      have hguarded : c.hasFinalizer = true → Guarded k (m, fs) := fun h => ⟨c, hget, h⟩
      simp only [Memory.answer, hget]
      exact keeps_handled (keeps_terminate hk hkey hsafe hguarded)
        (keeps_ensureFinalizer hk hkey hsafe hguarded) fun t ht => keeps_converge hk hkey ht

end Programs

namespace Pool

variable {ctx : ReconcileContext} {d : Location} {fs : FileSystem} {s : Pool} {k : ObjectKey}

theorem compatible_among (ctx : ReconcileContext) (d : Location) :
    Compatible (Meddling ObjectKey.Placeable ctx.dataDir) ctx (among ctx.dataDir d)
      fun s => Sound ctx.dataDir d s ∧ ∀ k, Unexported d k s ∨ Guarded k s where
  refl _ _ := .refl
  trans := .trans
  answers := id
  allowed := by
    rintro k s q reply t ⟨hs, hsafe⟩ ⟨ht, hk, hothers⟩
    refine ⟨⟨ht, fun l => ?_⟩, hothers⟩
    by_cases hl : l = k
    · exact hl ▸ hk
    · exact (finding_safe.kept ⟨hs, hsafe l⟩ (hothers l hl)).2
  others := by
    rintro s t ⟨hs, hsafe⟩ hmeddling
    have respects (l : ObjectKey) : Respects ctx.dataDir d l s t := meddling_respects hmeddling
    exact ⟨⟨(respects default).sound hs,
      fun l => (finding_safe.kept ⟨hs, hsafe l⟩ (respects l)).2⟩, respects⟩
  starts := by
    rintro s k ⟨hs, hsafe⟩
    exact keeps_reconcile_among ctx k ⟨hs, hsafe k⟩

theorem ReachableAmid.safe
    (hleads : fs.LeadsTo ctx.dataDir d) (hvacant : ∀ r, r ≠ [] → fs.entries.get? (d ++ r) = none)
    (hreach : ReachableAmid (Meddling ObjectKey.Placeable ctx.dataDir) ctx fs s) :
    Sound ctx.dataDir d s.world ∧ ∀ l, Unexported d l s.world ∨ Guarded l s.world := by
  have hinit : Sound ctx.dataDir d ({}, fs) ∧ ∀ l, Unexported d l ({}, fs) ∨ Guarded l ({}, fs) :=
    ⟨⟨FileSystem.grounds_of_vacant hleads hvacant, by simp⟩,
      fun l => .inl (hvacant l.place (by simp [ObjectKey.place]))⟩
  exact (compatible_among ctx d).reachable hinit hreach

theorem ReachableAmid.guarded_of_exported
    (hleads : fs.LeadsTo ctx.dataDir d) (hvacant : ∀ r, r ≠ [] → fs.entries.get? (d ++ r) = none)
    (hreach : ReachableAmid (Meddling ObjectKey.Placeable ctx.dataDir) ctx fs s)
    (hk : k.Placeable) (hexported : s.world.2.stat (exportDirs ctx.dataDir k).lock = .ok ()) :
    Guarded k s.world := by
  obtain ⟨hs, hsafe⟩ := hreach.safe hleads hvacant
  have hstands := (FileSystem.stat_under hs.grounds (by simp [ObjectKey.place])
    (pathNames_of_placeable hk)).1 hexported
  exact (hsafe k).resolve_left hstands

end Pool

/-- Wherever reconciles of any keys and others who meddle with the cluster get to from an empty
cluster and an empty data directory, a config whose export directory exists is stored, and our
finalizer is among its finalizers. -/
theorem stored_of_exported {ctx : ReconcileContext} {fs : FileSystem} {d : Location}
    (hleads : fs.LeadsTo ctx.dataDir d) (hvacant : ∀ r, r ≠ [] → fs.entries.get? (d ++ r) = none)
    {s : Pool}
    (hreach : Pool.ReachableAmid (Meddling ObjectKey.Placeable ctx.dataDir) ctx fs s)
    {k : ObjectKey} (hk : k.Placeable)
    (hexported : s.world.2.stat (exportDirs ctx.dataDir k).lock = .ok ()) :
    ∃ c, s.world.1.configs.get? k = some c ∧ c.key = k ∧
      ourFinalizer ∈ c.metadata.finalizerList := by
  obtain ⟨c, hget, hfinalizer⟩ := hreach.guarded_of_exported hleads hvacant hk hexported
  refine ⟨c, hget, ((hreach.safe hleads hvacant).1.keyed k c hget).1, ?_⟩
  simpa [ClusterConfig.hasFinalizer] using hfinalizer

private def emptyData : FileSystem := { entries := Table.empty.insert ["data"] (.directory 0o755) }

private theorem leadsTo_emptyData : emptyData.LeadsTo sampleContext.dataDir ["data"] := rfl

private theorem vacant_emptyData (r : List String) (hr : r ≠ []) :
    emptyData.entries.get? (["data"] ++ r) = none := by
  rw [emptyData, Table.get?_insert_of_ne _ _ (by simpa using hr)]
  rfl

private def guardedConfig (name : String) : ClusterConfig where
  metadata := { name := some name, space := some "edge", finalizers := some [ourFinalizer] }
  spec := { relocation := { domain := "example.com" } }

/-- A reconcile that has just made the directories of a config. -/
theorem stored_of_exported_site :
    ∃ s, Pool.ReachableAmid (Meddling ObjectKey.Placeable sampleContext.dataDir) sampleContext
        emptyData s ∧
      s.world.2.stat (exportDirs sampleContext.dataDir ⟨"edge", "site"⟩).lock = .ok () ∧
      ∃ c, s.world.1.configs.get? ⟨"edge", "site"⟩ = some c ∧ c.key = ⟨"edge", "site"⟩ ∧
        ourFinalizer ∈ c.metadata.finalizerList := by
  have placeable : (⟨"edge", "site"⟩ : ObjectKey).Placeable := by decide
  have start : Pool.ReachableAmid (Meddling ObjectKey.Placeable sampleContext.dataDir) sampleContext
      emptyData (Pool.idle ({}, emptyData)) := .init
  have created := start.step (.others (.create (c := guardedConfig "site") placeable rfl))
  have started := created.step (.start (k := ⟨"edge", "site"⟩) rfl)
  have made := started.after (if_pos rfl) 3
  exact ⟨_, made, rfl,
    stored_of_exported leadsTo_emptyData vacant_emptyData made placeable rfl⟩

private theorem reachable_exported (named : ObjectKey → Prop) (name : String)
    (hnamed : named (guardedConfig name).key) :
    Pool.ReachableAmid (Meddling named sampleContext.dataDir) sampleContext emptyData
      (Pool.idle ((reconcile sampleContext (guardedConfig name).key).run (besideFiles Memory.answer)
        (({} : Memory).insertConfig (guardedConfig name), emptyData)).2) := by
  have start : Pool.ReachableAmid (Meddling named sampleContext.dataDir) sampleContext emptyData
      (Pool.idle ({}, emptyData)) := .init
  exact (start.idle_others (.create hnamed rfl)).reconcile _

/-- Names that are not single parts of a path lead into the directories of other keys: the export of
a config `site/` makes the directory of `site`, and to lock the export of a config without a name
makes a file where a config `.lock` would be exported. -/
theorem exported_unstored :
    ObjectKey.Placeable ⟨"edge", "site"⟩ ∧ ObjectKey.Placeable ⟨"edge", ".lock"⟩ ∧
      emptyData.LeadsTo sampleContext.dataDir ["data"] ∧
      (∀ r, r ≠ [] → emptyData.entries.get? (["data"] ++ r) = none) ∧
      (∃ s, Pool.ReachableAmid (Meddling (fun _ => True) sampleContext.dataDir) sampleContext
          emptyData s ∧
        s.world.2.stat (exportDirs sampleContext.dataDir ⟨"edge", "site"⟩).lock = .ok () ∧
        s.world.1.configs.get? ⟨"edge", "site"⟩ = none) ∧
      ∃ s, Pool.ReachableAmid (Meddling (fun l => l = ⟨"edge", "site"⟩ ∨ l = ⟨"edge", ""⟩)
          sampleContext.dataDir) sampleContext emptyData s ∧
        s.world.2.stat (exportDirs sampleContext.dataDir ⟨"edge", ".lock"⟩).lock = .ok () ∧
        s.world.1.configs.get? ⟨"edge", ".lock"⟩ = none := by
  refine ⟨by decide, by decide, leadsTo_emptyData, vacant_emptyData, ?_, ?_⟩
  · exact ⟨_, reachable_exported _ "site/" trivial, rfl, rfl⟩
  · have exported :=
      reachable_exported (fun l => l = ⟨"edge", "site"⟩ ∨ l = ⟨"edge", ""⟩) "site" (.inl rfl)
    exact ⟨_, exported.idle_others (.openLock ⟨"edge", ""⟩ (.inr rfl)), rfl, rfl⟩

end Relocation
