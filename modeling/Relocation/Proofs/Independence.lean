import Relocation.Proofs.FileWork
import Relocation.Proofs.Versions

/-!
Reconciles of different configs do not get in each other's way. What a reconcile changes is its own
config, the host that it references, its export directory and missing directories on the way to it
(`Untouched`). Where names are short and the way to the data directory never leads up, two
reconciles come to the same in either order (`EitherOrder`).
-/

set_option autoImplicit false

namespace Relocation

open Files Files.FileSystem
open Program Store

section Untouched

variable {ctx : ReconcileContext} {k : ObjectKey} {s t : Memory × FileSystem}

/-- From one state to another nothing has changed but the config of a key, the host that it
referenced, what stands at its export directory and below it, and directories that were missing on
the way to it. -/
structure Untouched (dataDir : Path) (k : ObjectKey) (s t : Memory × FileSystem) : Prop where
  configs : ∀ key, key ≠ k → t.1.configs.get? key = s.1.configs.get? key
  hosts : ∀ key, (∀ c, s.1.configs.get? k = some c → c.hostKey? ≠ some key) →
    t.1.hosts.get? key = s.1.hosts.get? key
  secrets : t.1.secrets = s.1.secrets
  files : Confined dataDir k s.2 t.2

private theorem configs_conclusion {m : Memory} {c : ClusterConfig} {host : Option Host}
    {url : String} {worked : Except Error Outcome} {key : ObjectKey} (hne : key ≠ c.key) :
    (m.applyAll (conclusion url c host worked).2).configs.get? key = m.configs.get? key := by
  refine configs_applyAll (fun a ha list heq => ?_) m
  subst heq
  rcases conclusion_own ha with ⟨list', heq⟩ | ⟨_, _, -, heq⟩
  · exact hne (Amendment.finalizers.inj heq).1
  · cases heq

private theorem hosts_conclusion {m : Memory} {c : ClusterConfig} {host : Option Host}
    {url : String} {worked : Except Error Outcome} {key : ObjectKey} (hne : c.hostKey? ≠ some key) :
    (m.applyAll (conclusion url c host worked).2).hosts.get? key = m.hosts.get? key := by
  refine hosts_applyAll (fun a ha patch heq => ?_) m
  subst heq
  rcases conclusion_own ha with ⟨_, heq⟩ | ⟨key', _, hkey, heq⟩
  · cases heq
  · exact hne ((Amendment.host.inj heq).1 ▸ hkey)

theorem untouched_reconcile (hkeyed : s.1.Keyed) (htree : s.2.IsTree) (hk : k.Placeable) :
    Untouched ctx.dataDir k s (reconciled ctx k s).2 := by
  obtain ⟨m, fs⟩ := s
  cases hget : m.configs.get? k with
  | none =>
    rw [reconciled_absent hget]
    exact ⟨fun _ _ => rfl, fun _ _ => rfl, rfl, .refl htree⟩
  | some c =>
    have hkey : c.key = k := hkeyed k c hget
    have hplaceable : c.key.Placeable := hkey ▸ hk
    obtain ⟨worked, gs, hwork, hconfined⟩ := confined_fileWork ctx.dataDir hplaceable htree m
    rw [reconciled_phases hkey hget hwork]
    exact ⟨fun key hne => configs_conclusion (hkey ▸ hne),
      fun key hne => hosts_conclusion (hne c hget), secrets_applyAll _ _, hkey ▸ hconfined⟩

end Untouched

section Trees

variable {dataDir : Path} {a b : ObjectKey} {fs ga gb gab gba : FileSystem} {l : Location}

/-- The trees that the work on the files of one key and on those of another leads to, in either
order. -/
private structure Orders (dataDir : Path) (a b : ObjectKey) (fs ga gb gab gba : FileSystem) :
    Prop where
  left : Confined dataDir a fs ga
  right : Confined dataDir b fs gb
  both : Confined dataDir b ga gab
  both' : Confined dataDir a gb gba
  twins : Twins dataDir a (fs, gb) (fs.held, fs.held) ga gba
  twins' : Twins dataDir b (fs, ga) (fs.held, fs.held) gb gab

private theorem Orders.symm (h : Orders dataDir a b fs ga gb gab gba) :
    Orders dataDir b a fs gb ga gba gab :=
  ⟨h.right, h.left, h.both', h.both, h.twins', h.twins⟩

private theorem twins_beside (ha : ShortPaths dataDir a) (hb : ShortPaths dataDir b) (hne : a ≠ b)
    (htree : fs.IsTree) (hconfined : Confined dataDir a fs ga) (hheld : ga.held = fs.held)
    (hnext : fs.nextInode ≤ ga.nextInode) :
    Twins dataDir b (fs, ga) (fs.held, fs.held) fs ga where
  tree := htree
  tree' := hconfined.tree
  same l hl := by
    have hbeside : ¬exportPlace dataDir a <+: l := fun hbelow =>
      (List.prefix_or_prefix_of_prefix hbelow hl).elim (exportPlace_beside hne)
        (exportPlace_beside hne.symm)
    rcases hconfined.beside l hbeside with hsame | ⟨hway, -⟩
    · exact sameEntry_of_eq (htree.linkless l) hsame
    · exact absurd hl (ha.way_beside hway)
  blocked := exists_congr fun l => and_congr_right fun hl => by
    unfold HasFile
    rcases hconfined.beside l (hb.way_beside hl) with hsame | ⟨-, hnone, hmade⟩
    · rw [hsame]
    · simp [hnone, hmade]
  ways := .inl fun _ _ => ⟨rfl, rfl⟩
  next := Nat.le_refl _
  next' := hnext
  held := rfl
  held' := hheld

private theorem Orders.raised (h : Orders dataDir a b fs ga gb gab gba)
    (ha : ¬exportPlace dataDir a <+: l) (hb : ¬exportPlace dataDir b <+: l)
    (hold : fs.entries.get? l = none) (hstands : gab.entries.get? l ≠ none) :
    gba.entries.get? l ≠ none := by
  cases hleft : ga.entries.get? l with
  | some entry =>
    -- It was made for the first key, which makes all directories on its way in both orders.
    rcases h.left.beside l ha with hsame | ⟨hway, -, -⟩
    · simp [hsame, hold] at hleft
    · rcases h.twins.ways with hways | hways
      · simp [(hways l hway).1, hold] at hleft
      · obtain ⟨mode, hdir⟩ := (hways l hway).2
        simp [hdir]
  | none =>
    -- It was made for the second key, and is kept in the other order.
    rcases h.both.beside l hb with hsame | ⟨hway, -, -⟩
    · exact absurd (hsame.trans hleft) hstands
    · rcases h.twins'.ways with hways | hways
      · exact absurd ((hways l hway).2.trans hleft) hstands
      · obtain ⟨mode, hdir⟩ := (hways l hway).1
        simp [h.both'.kept ha hdir]

private theorem Orders.stands (h : Orders dataDir a b fs ga gb gab gba)
    (ha : ¬exportPlace dataDir a <+: l) (hb : ¬exportPlace dataDir b <+: l)
    (hstands : gab.entries.get? l ≠ none) : gba.entries.get? l = gab.entries.get? l := by
  cases hold : fs.entries.get? l with
  | some entry =>
    rw [h.both.kept hb (h.left.kept ha hold), h.both'.kept ha (h.right.kept hb hold)]
  | none =>
    have hmade := h.both.made hb (h.left.made ha (.inl hold))
    have hmade' := h.both'.made ha (h.right.made hb (.inl hold))
    rw [hmade.resolve_left hstands, hmade'.resolve_left (h.raised ha hb hold hstands)]

private theorem Orders.look_own (h : Orders dataDir a b fs ga gb gab gba)
    (hb : ShortPaths dataDir b) (hne : a ≠ b) (hl : exportPlace dataDir a <+: l) :
    gab.look l = gba.look l := by
  have hbeside : ¬exportPlace dataDir b <+: l := fun hbelow =>
    (List.prefix_or_prefix_of_prefix hbelow hl).elim (exportPlace_beside hne.symm)
      (exportPlace_beside hne)
  rcases h.both.beside l hbeside with hsame | ⟨hway, -⟩
  · rw [look, look, hsame]
    exact (h.twins.same l hl).look
  · exact absurd hl (hb.way_beside hway)

private theorem Orders.look_eq (h : Orders dataDir a b fs ga gb gab gba)
    (ha : ShortPaths dataDir a) (hb : ShortPaths dataDir b) (hne : a ≠ b) (l : Location) :
    gab.look l = gba.look l := by
  by_cases hbelow : exportPlace dataDir a <+: l
  · exact h.look_own hb hne hbelow
  by_cases hbelow' : exportPlace dataDir b <+: l
  · exact (h.symm.look_own ha hne.symm hbelow').symm
  by_cases hstands : gab.entries.get? l = none
  · by_cases hstands' : gba.entries.get? l = none
    · rw [look, look, hstands, hstands']
    · rw [look, look, h.symm.stands hbelow' hbelow hstands']
  · rw [look, look, h.stands hbelow hbelow' hstands]

end Trees

section Order

variable {ctx : ReconcileContext} {a b : ObjectKey} {s : Memory × FileSystem}

/-- Two reconciles, one after the other, have the same results and leave the same in either order,
resource versions and the numbers of files aside. -/
structure EitherOrder (ctx : ReconcileContext) (a b : ObjectKey) (s : Memory × FileSystem) :
    Prop where
  first : (reconciled ctx a s).1 = (reconciled ctx a (reconciled ctx b s).2).1
  second : (reconciled ctx b (reconciled ctx a s).2).1 = (reconciled ctx b s).1
  content : (reconciled ctx b (reconciled ctx a s).2).2.1.content =
    (reconciled ctx a (reconciled ctx b s).2).2.1.content
  look : ∀ l, (reconciled ctx b (reconciled ctx a s).2).2.2.look l =
    (reconciled ctx a (reconciled ctx b s).2).2.2.look l
  held : (reconciled ctx b (reconciled ctx a s).2).2.2.held =
    (reconciled ctx a (reconciled ctx b s).2).2.2.held

/-- Whether two configs reference different hosts, or one of them none. -/
def HostsApart (m : Memory) (a b : ObjectKey) : Prop :=
  ∀ c c', m.configs.get? a = some c → m.configs.get? b = some c' →
    ∀ key, c.hostKey? = some key → c'.hostKey? ≠ some key

private theorem eitherOrder_absent (hkeyed : s.1.Keyed) (htree : s.2.IsTree) (hb : b.Placeable)
    (hne : a ≠ b) (hget : s.1.configs.get? a = none) : EitherOrder ctx a b s := by
  have hstill : (reconciled ctx b s).2.1.configs.get? a = none :=
    ((untouched_reconcile hkeyed htree hb).configs a hne).trans hget
  have hfirst : reconciled ctx a s = (.ok .settled, s) := reconciled_absent hget
  have hsecond : reconciled ctx a (reconciled ctx b s).2 = (.ok .settled, (reconciled ctx b s).2) :=
    reconciled_absent hstill
  constructor <;> simp only [hfirst, hsecond, implies_true]

private theorem EitherOrder.symm (h : EitherOrder ctx a b s) : EitherOrder ctx b a s :=
  ⟨h.second.symm, h.first.symm, h.content.symm, fun l => (h.look l).symm, h.held.symm⟩

private theorem conclusions_apart {c c' : ClusterConfig} {host host' : Option Host}
    {url url' : String} {worked worked' : Except Error Outcome} (hne : c.key ≠ c'.key)
    (hhosts : ∀ key, c.hostKey? = some key → c'.hostKey? ≠ some key) :
    ∀ x ∈ (conclusion url c host worked).2, ∀ y ∈ (conclusion url' c' host' worked').2,
      x.Apart y := by
  intro x hx y hy
  rcases conclusion_own hx with ⟨list, rfl⟩ | ⟨key, patch, hkey, rfl⟩ <;>
    rcases conclusion_own hy with ⟨list', rfl⟩ | ⟨key', patch', hkey', rfl⟩
  · exact hne
  · exact trivial
  · exact trivial
  · exact fun heq => hhosts key hkey (heq ▸ hkey')

private def ending (ctx : ReconcileContext) (m : Memory) (c : ClusterConfig)
    (worked : Except Error Outcome) : Except Error Outcome × List Amendment :=
  conclusion (imageUrl ctx.serviceUrl c.key) c (c.hostKey?.bind m.hosts.get?) worked

variable {c c' : ClusterConfig} {m : Memory} {fs ga gb : FileSystem}
  {worked worked' : Except Error Outcome}

private theorem ending_beside (hhosts : ∀ key, c'.hostKey? = some key → c.hostKey? ≠ some key) :
    ending ctx (m.applyAll (ending ctx m c' worked').2) c worked = ending ctx m c worked := by
  have hhost : c.hostKey?.bind (m.applyAll (ending ctx m c' worked').2).hosts.get? =
      c.hostKey?.bind m.hosts.get? := by
    cases hkey : c.hostKey? with
    | none => rfl
    | some key => exact hosts_conclusion fun hkey' => hhosts key hkey' hkey
  rw [ending, hhost, ending]

private theorem reconciled_after (hs : ShortPaths ctx.dataDir c.key)
    (hs' : ShortPaths ctx.dataDir c'.key) (hne : c.key ≠ c'.key)
    (hhosts : ∀ key, c'.hostKey? = some key → c.hostKey? ≠ some key) (htree : fs.IsTree)
    (hheld : ∀ inode ∈ fs.held, inode < fs.nextInode)
    (hget : m.configs.get? c.key = some c) (hget' : m.configs.get? c'.key = some c')
    (hwork : (fileWork ctx.dataDir c).run (besideFiles Memory.answer) (m, fs) = (worked, m, ga))
    (hwork' : (fileWork ctx.dataDir c').run (besideFiles Memory.answer) (m, fs) =
      (worked', m, gb)) (hconfined : Confined ctx.dataDir c'.key fs gb) :
    ∃ gba, reconciled ctx c.key (reconciled ctx c'.key (m, fs)).2 = ((ending ctx m c worked).1,
        (m.applyAll (ending ctx m c' worked').2).applyAll (ending ctx m c worked).2, gba) ∧
      Confined ctx.dataDir c.key gb gba ∧
      Twins ctx.dataDir c.key (fs, gb) (fs.held, fs.held) ga gba := by
  obtain ⟨hsame, hnext⟩ := kept_fileWork hs' htree hheld hwork'
  obtain ⟨gba, hafter, htwins⟩ := twinned_fileWork (m.applyAll (ending ctx m c' worked').2) hs hheld
    (secrets_applyAll _ _).symm (twins_beside hs' hs hne.symm htree hconfined hsame hnext) hwork
  obtain ⟨_, _, hrun, hbeside⟩ := confined_fileWork ctx.dataDir hs.key hconfined.tree
    (m.applyAll (ending ctx m c' worked').2)
  cases hafter.symm.trans hrun
  have hstill : (m.applyAll (ending ctx m c' worked').2).configs.get? c.key = some c :=
    (configs_conclusion hne).trans hget
  have hfirst : reconciled ctx c'.key (m, fs) = _ := reconciled_phases rfl hget' hwork'
  refine ⟨gba, ?_, hbeside, htwins⟩
  rw [hfirst, ← ending_beside hhosts]
  exact reconciled_phases rfl hstill hafter

private theorem eitherOrder_present (htree : s.2.IsTree)
    (hheld : ∀ inode ∈ s.2.held, inode < s.2.nextInode) (ha : ShortPaths ctx.dataDir c.key)
    (hb : ShortPaths ctx.dataDir c'.key) (hne : c.key ≠ c'.key)
    (hhosts : ∀ key, c.hostKey? = some key → c'.hostKey? ≠ some key)
    (hget : s.1.configs.get? c.key = some c) (hget' : s.1.configs.get? c'.key = some c') :
    EitherOrder ctx c.key c'.key s := by
  obtain ⟨m, fs⟩ := s
  obtain ⟨worked, ga, hwork, hleft⟩ := confined_fileWork ctx.dataDir ha.key htree m
  obtain ⟨worked', gb, hwork', hright⟩ := confined_fileWork ctx.dataDir hb.key htree m
  have hfirst : reconciled ctx c.key (m, fs) = ((ending ctx m c worked).1, _, ga) :=
    reconciled_phases rfl hget hwork
  have hfirst' : reconciled ctx c'.key (m, fs) = ((ending ctx m c' worked').1, _, gb) :=
    reconciled_phases rfl hget' hwork'
  obtain ⟨gba, hsecond, hboth', htwins⟩ := reconciled_after ha hb hne
    (fun key hkey' hkey => hhosts key hkey hkey') htree hheld hget hget' hwork hwork' hright
  obtain ⟨gab, hsecond', hboth, htwins'⟩ := reconciled_after hb ha hne.symm hhosts htree hheld
    hget' hget hwork' hwork hleft
  have horders : Orders ctx.dataDir c.key c'.key fs ga gb gab gba :=
    ⟨hleft, hright, hboth, hboth', htwins, htwins'⟩
  refine ⟨?_, ?_, ?_, ?_, ?_⟩
  · rw [hsecond, hfirst]
  · rw [hsecond', hfirst']
  · rw [hsecond, hsecond']
    exact content_applyAll_comm (conclusions_apart hne hhosts) m
  · rw [hsecond, hsecond']
    exact horders.look_eq ha hb hne
  · rw [hsecond, hsecond']
    exact htwins'.held'.trans htwins.held'.symm

/-- The export directories of two keys stand at their places only, and neither lies in the other. -/
structure DirectoriesApart (dataDir : Path) (a b : ObjectKey) : Prop where
  stands : ∀ fs : FileSystem, fs.IsTree → ∀ followLast l,
    fs.resolve followLast (exportDirs dataDir a).lock = .ok (.directory l) →
      l = exportPlace dataDir a
  beside : ¬exportPlace dataDir a <+: exportPlace dataDir b

/-- Reconciles of different configs are independent. In every tree, the one changes nothing that is
the other's, and the two can be made in either order if the configs do not share a host, names are
short enough, and the way to the data directory never leads up. -/
theorem reconciles_independent (ctx : ReconcileContext) (hkeyed : s.1.Keyed)
    (htree : s.2.IsTree) (ha : a.Placeable) (hb : b.Placeable) (hne : a ≠ b) :
    DirectoriesApart ctx.dataDir a b ∧ DirectoriesApart ctx.dataDir b a ∧
      Untouched ctx.dataDir a s (reconciled ctx a s).2 ∧
      (ShortPaths ctx.dataDir a → ShortPaths ctx.dataDir b →
        (∀ inode ∈ s.2.held, inode < s.2.nextInode) → HostsApart s.1 a b →
          EitherOrder ctx a b s) := by
  refine ⟨⟨fun fs h _ _ => lockDir_stands h ha, exportPlace_beside hne⟩,
    ⟨fun fs h _ _ => lockDir_stands h hb, exportPlace_beside hne.symm⟩,
    untouched_reconcile hkeyed htree ha, fun hshort hshort' hheld hhosts => ?_⟩
  cases hget : s.1.configs.get? a with
  | none => exact eitherOrder_absent hkeyed htree hb hne hget
  | some c =>
    cases hget' : s.1.configs.get? b with
    | none => exact (eitherOrder_absent hkeyed htree ha hne.symm hget').symm
    | some c' =>
      obtain rfl : c.key = a := hkeyed a c hget
      obtain rfl : c'.key = b := hkeyed b c' hget'
      exact eitherOrder_present htree hheld hshort hshort' hne (hhosts c c' hget hget') hget hget'

end Order

section Meeting

private def eastKey (name : String) : ObjectKey := ⟨"edge", name⟩

private def westKey : ObjectKey := ⟨"edge", "west"⟩

private def meetingConfig (k : ObjectKey) (deleted : Option Time.Timestamp) (host : String) :
    ClusterConfig where
  metadata := {
    name := some k.name
    space := some k.space
    deletionTimestamp := deleted
    finalizers := some [ourFinalizer] }
  spec := { relocation := { domain := "example.com" }, bareMetalHostRef := some ⟨host, "edge"⟩ }

private def meeting (name : String) (fs : FileSystem) : Memory × FileSystem where
  fst := {
    configs := (Table.empty.insert (eastKey name)
      (meetingConfig (eastKey name) (some default) "metal")).insert westKey
        (meetingConfig westKey none "steel")
    hosts := (Table.empty.insert ⟨"edge", "metal"⟩
      ⟨{}, { image := some { url := "http://images/metal.iso" } }⟩).insert
        ⟨"edge", "steel"⟩ ⟨{}, {}⟩ }
  snd := fs

private def exported : FileSystem :=
  (((({} : FileSystem).place ["data"] (.directory 0o755)).place ["data", "namespaces"]
    (.directory 0o700)).place ["data", "namespaces", "edge"] (.directory 0o700)).place
      ["data", "namespaces", "edge", "east"] (.directory 0o700)

private def meetingContext (parts : List String) : ReconcileContext :=
  ⟨⟨true, parts⟩, "http://images"⟩

section Stored

variable {name : String} {fs : FileSystem}

private theorem key_meetingConfig (k : ObjectKey) (deleted : Option Time.Timestamp)
    (host : String) : (meetingConfig k deleted host).key = k := rfl

private theorem guarded_meetingConfig (k : ObjectKey) (deleted : Option Time.Timestamp)
    (host : String) : (meetingConfig k deleted host).hasFinalizer = true := by
  simp [meetingConfig, ClusterConfig.hasFinalizer, ObjectMeta.finalizerList]

private theorem meeting_east (hname : name ≠ "west") :
    (meeting name fs).1.configs.get? (eastKey name) =
      some (meetingConfig (eastKey name) (some default) "metal") := by
  have hne : eastKey name ≠ westKey := fun heq => hname (congrArg ObjectKey.name heq)
  rw [meeting, Table.get?_insert_of_ne _ _ hne, Table.get?_insert_self]

private theorem meeting_west :
    (meeting name fs).1.configs.get? westKey = some (meetingConfig westKey none "steel") :=
  Table.get?_insert_self _ _ _

private theorem keyed_meeting : (meeting name fs).1.Keyed := by
  have hempty : Memory.Keyed {} := by
    intro k c hget
    rw [Table.get?_empty] at hget
    cases hget
  have heast : Memory.Keyed { configs := (Table.empty.insert (eastKey name)
      (meetingConfig (eastKey name) (some default) "metal")) } := keyed_insert hempty rfl rfl
  exact keyed_insert heast rfl rfl

private theorem hostsApart_meeting (hname : name ≠ "west") :
    HostsApart (meeting name fs).1 (eastKey name) westKey := by
  intro c c' hget hget' key hhost hhost'
  rw [meeting_east hname] at hget
  rw [meeting_west] at hget'
  cases hget
  cases hget'
  cases hhost
  revert hhost'
  decide

private theorem placeable_west : westKey.Placeable := by decide

private theorem placeable_east : (eastKey "east").Placeable := by decide

private theorem tree_empty : IsTree {} := ⟨nofun, nofun⟩

private theorem tree_exported : exported.IsTree := by
  have hplaced {fs : FileSystem} {l : Location} {mode : Nat} (h : fs.IsTree)
      (hparent : fs.Enters l.dropLast) : (fs.place l (.directory mode)).IsTree :=
    isTree_place h nofun hparent (.inl ⟨mode, rfl⟩)
  exact hplaced (hplaced (hplaced (hplaced tree_empty (.inl rfl)) (.inr ⟨_, rfl⟩))
    (.inr ⟨_, rfl⟩)) (.inr ⟨_, rfl⟩)

end Stored

/-- A config that leaves, with its export, and another one that comes. -/
theorem reconciles_independent_meeting :
    ((meeting "east" exported).1.Keyed ∧ (meeting "east" exported).2.IsTree ∧
      (eastKey "east").Placeable ∧ westKey.Placeable ∧ eastKey "east" ≠ westKey) ∧
    (ShortPaths ⟨true, ["data"]⟩ (eastKey "east") ∧ ShortPaths ⟨true, ["data"]⟩ westKey ∧
      HostsApart (meeting "east" exported).1 (eastKey "east") westKey) ∧
    DirectoriesApart ⟨true, ["data"]⟩ (eastKey "east") westKey ∧
      Untouched ⟨true, ["data"]⟩ (eastKey "east") (meeting "east" exported)
        (reconciled (meetingContext ["data"]) (eastKey "east") (meeting "east" exported)).2 ∧
      EitherOrder (meetingContext ["data"]) (eastKey "east") westKey (meeting "east" exported) := by
  have htree : (meeting "east" exported).2.IsTree := tree_exported
  have hne : eastKey "east" ≠ westKey := by decide
  have hshort : ShortPaths ⟨true, ["data"]⟩ (eastKey "east") :=
    ⟨placeable_east, by decide, by decide⟩
  have hshort' : ShortPaths ⟨true, ["data"]⟩ westKey := ⟨placeable_west, by decide, by decide⟩
  have hhosts : HostsApart (meeting "east" exported).1 (eastKey "east") westKey :=
    hostsApart_meeting (by decide)
  obtain ⟨hapart, -, huntouched, horder⟩ := reconciles_independent (meetingContext ["data"])
    keyed_meeting htree placeable_east placeable_west hne
  exact ⟨⟨keyed_meeting, htree, placeable_east, placeable_west, hne⟩, ⟨hshort, hshort', hhosts⟩,
    hapart, huntouched, horder hshort hshort' nofun hhosts⟩

/-- Whether nothing but names and the way to the data directory can be why two reconciles of
different configs do not come to the same in either order. -/
private def OrderMatters (ctx : ReconcileContext) (a b : ObjectKey) (s : Memory × FileSystem) :
    Prop :=
  (s.1.Keyed ∧ s.2.IsTree ∧ s.2.held = [] ∧ a.Placeable ∧ b.Placeable ∧ a ≠ b ∧
    HostsApart s.1 a b) ∧ ¬EitherOrder ctx a b s

/-- Where the way to the data directory leads up from a directory that is missing, an export makes
it lead to another export. -/
private theorem orderMatters_up : OrderMatters (meetingContext ["gone", "..", "data"])
    (eastKey "east") westKey (meeting "east" exported) := by
  refine ⟨⟨keyed_meeting, tree_exported, rfl, placeable_east, placeable_west, by decide,
    hostsApart_meeting (by decide)⟩, fun h => ?_⟩
  have hlook := h.look ["data", "namespaces", "edge", "east"]
  have hkept : (reconciled (meetingContext ["gone", "..", "data"]) westKey
      (reconciled (meetingContext ["gone", "..", "data"]) (eastKey "east")
        (meeting "east" exported)).2).2.2.look ["data", "namespaces", "edge", "east"] =
      some (.directory 0o700) := rfl
  have hremoved : (reconciled (meetingContext ["gone", "..", "data"]) (eastKey "east")
      (reconciled (meetingContext ["gone", "..", "data"]) westKey
        (meeting "east" exported)).2).2.2.look ["data", "namespaces", "edge", "east"] = none := rfl
  rw [hkept, hremoved] at hlook
  cases hlook

section Overlong

private def longName (n : Nat) : String := String.ofList (List.replicate n 'x')

variable {n : Nat}

private theorem toList_longName : (longName n).toList = List.replicate n 'x' :=
  String.toList_ofList

private theorem byteCount_longName : Text.byteCount (longName n).toList = n := by
  rw [toList_longName]
  induction n with
  | zero => rfl
  | succ n ih =>
    rw [List.replicate_succ, Text.byteCount, ih]
    exact Nat.add_comm _ _

private theorem byteCount_append (xs ys : List Char) :
    Text.byteCount (xs ++ ys) = Text.byteCount xs + Text.byteCount ys := by
  induction xs with
  | nil => exact (Nat.zero_add _).symm
  | cons c xs ih => rw [List.cons_append, Text.byteCount, ih, Text.byteCount, Nat.add_assoc]

variable (hn : maxName < n) (hlimit : n < 4000)

include hn

private theorem longName_ne {s : String} (hs : Text.byteCount s.toList ≤ 4) : longName n ≠ s := by
  rintro rfl
  rw [byteCount_longName] at hs
  exact absurd (Nat.lt_of_lt_of_le hn hs) (by decide)

private theorem overlong_longName : Overlong (longName n) :=
  ⟨longName_ne hn (by decide), longName_ne hn (by decide), longName_ne hn (by decide),
    byteCount_longName ▸ hn⟩

private theorem placeable_longName : (eastKey (longName n)).Placeable := by
  have hlong := overlong_longName hn
  refine ⟨placeable_west.1, hlong.ne_empty, hlong.ne_dot, hlong.ne_dotdot, ?_⟩
  rw [eastKey, toList_longName, List.mem_replicate]
  rintro ⟨-, heq⟩
  revert heq
  decide

include hlimit

private theorem resolve_longName {fs : FileSystem} (h : fs.IsTree) :
    fs.resolve true (exportDirs ⟨true, ["data"]⟩ (eastKey (longName n))).lock =
      fs.advance true [] ["data", "namespaces", "edge", longName n] := by
  have htext : (⟨true, ["data", "namespaces", "edge", longName n]⟩ : Path).text.toList =
      "/data/namespaces/edge/".toList ++ List.replicate n 'x' := by
    rw [← toList_longName, ← String.toList_append]
    rfl
  have hnul :
      ("/data/namespaces/edge/".toList ++ List.replicate n 'x').contains '\x00' = false := by
    simp
  have hbytes : Text.byteCount ("/data/namespaces/edge/".toList ++ List.replicate n 'x') =
      22 + n := by
    rw [byteCount_append, ← toList_longName, byteCount_longName]
    rfl
  have hshort : ¬pathLimit ≤ 22 + n := by
    rw [pathLimit]
    omega
  have hpath :
      FileSystem.checkPath ⟨true, ["data", "namespaces", "edge", longName n]⟩ = .ok () := by
    rw [FileSystem.checkPath, htext, hbytes]
    simp only [hnul, hshort]
    rfl
  have hparts : (exportDirs ⟨true, ["data"]⟩ (eastKey (longName n))).lock =
      ⟨true, ["data", "namespaces", "edge", longName n]⟩ := by
    rw [lockDir_parts _ (placeable_longName hn)]
    rfl
  rw [hparts, resolve_linkless h.linkless, hpath]
  rfl

private theorem stat_empty :
    stat {} (exportDirs ⟨true, ["data"]⟩ (eastKey (longName n))).lock = .error .notFound := by
  have hmissing : (["namespaces", "edge", longName n].all (· = "")) = false := by simp
  rw [FileSystem.stat, resolve_longName hn hlimit tree_empty,
    advance_none (by decide) rfl, hmissing]
  rfl

private theorem stat_overlong {fs : FileSystem} (h : fs.IsTree)
    (hdir : fs.HasDir ["data", "namespaces", "edge"]) :
    fs.stat (exportDirs ⟨true, ["data"]⟩ (eastKey (longName n))).lock = .error .nameTooLong := by
  have hstands : fs.entries.get? ["data", "namespaces", "edge"] ≠ none := by
    obtain ⟨mode, hget⟩ := hdir
    simp [hget]
  obtain ⟨_, hdata⟩ : fs.HasDir ["data"] := h.above hstands ⟨_, rfl⟩ (by decide) (by decide)
  obtain ⟨_, hspaces⟩ : fs.HasDir ["data", "namespaces"] :=
    h.above hstands ⟨["edge"], rfl⟩ (by decide) (by decide)
  obtain ⟨_, hspace⟩ := hdir
  rw [FileSystem.stat, resolve_longName hn hlimit h,
    advance_directory (by decide) hdata,
    advance_directory (by decide) hspaces,
    advance_directory (by decide) hspace,
    advance_overlong (overlong_longName hn)]
  rfl

end Overlong

section Leaving

variable {k : ObjectKey} {c : ClusterConfig} {s : Memory × FileSystem} {e : IoError} {n : Nat}

private theorem reconciled_unseen (ctx : ReconcileContext) (hkey : c.key = k)
    (hget : s.1.configs.get? k = some c) (hdeleting : c.metadata.isDeleting = true)
    (hguarded : c.hasFinalizer = true)
    (hstat : s.2.stat (exportDirs ctx.dataDir k).lock = .error e) :
    (reconciled ctx k s).1 = if e.isNotFound then .ok .settled
      else .error (statError (exportDirs ctx.dataDir k).lock e) := by
  obtain ⟨m, fs⟩ := s
  have hlook : (tryFile (.stat (exportDirs ctx.dataDir k).lock)).run (besideFiles Memory.answer)
      (m, fs) = (.ok (.error e), m, fs) := by
    rw [run_tryFile, besideFiles, FileSystem.answer, hstat]
  have hwork : (fileWork ctx.dataDir c).run (besideFiles Memory.answer) (m, fs) =
      (if e.isNotFound then .ok .settled
        else .error (statError (exportDirs ctx.dataDir k).lock e), m, fs) := by
    simp only [fileWork, hguarded, hdeleting, hkey]
    refine (run_bind_ok hlook).trans ?_
    cases hgone : e.isNotFound <;> simp only [hgone] <;> rfl
  rw [reconciled_phases hkey hget hwork]
  cases e.isNotFound <;> simp [conclusion, hdeleting, hguarded, Outcome.isRequeue]

private theorem west_work (m : Memory) : ∃ worked gs,
    (fileWork ⟨true, ["data"]⟩ (meetingConfig westKey none "steel")).run
        (besideFiles Memory.answer) (m, {}) = (worked, m, gs) ∧
      gs.IsTree ∧ gs.HasDir ["data", "namespaces", "edge"] := by
  obtain ⟨worked, gs, hrun, hconfined⟩ := confined_fileWork ⟨true, ["data"]⟩
    (key_meetingConfig westKey none "steel" ▸ placeable_west) tree_empty m
  have hdir : ((fileWork ⟨true, ["data"]⟩ (meetingConfig westKey none "steel")).run
      (besideFiles Memory.answer) (m, {})).2.2.HasDir ["data", "namespaces", "edge"] :=
    ⟨privateDirMode, rfl⟩
  have hafter : ((fileWork ⟨true, ["data"]⟩ (meetingConfig westKey none "steel")).run
      (besideFiles Memory.answer) (m, {})).2.2 = gs := congrArg (·.2.2) hrun
  exact ⟨worked, gs, hrun, hconfined.tree, hafter ▸ hdir⟩

/-- Where the name of a config that leaves is too long, another export makes the directory that the
name is looked up in. -/
private theorem orderMatters_overlong (hn : maxName < n) (hlimit : n < 4000) :
    OrderMatters (meetingContext ["data"]) (eastKey (longName n)) westKey
      (meeting (longName n) {}) := by
  have hname : longName n ≠ "west" := longName_ne hn (by decide)
  have hne : eastKey (longName n) ≠ westKey := fun heq => hname (congrArg ObjectKey.name heq)
  refine ⟨⟨keyed_meeting, tree_empty, rfl, placeable_longName hn, placeable_west, hne,
    hostsApart_meeting hname⟩, fun h => ?_⟩
  have hfirst : (reconciled (meetingContext ["data"]) (eastKey (longName n))
      (meeting (longName n) {})).1 = .ok .settled := by
    have hunseen := reconciled_unseen (meetingContext ["data"]) (key_meetingConfig _ _ _)
      (meeting_east hname) rfl (guarded_meetingConfig _ _ _) (stat_empty hn hlimit)
    exact hunseen.trans (if_pos rfl)
  have hlater : ∃ e, (reconciled (meetingContext ["data"]) (eastKey (longName n))
      (reconciled (meetingContext ["data"]) westKey (meeting (longName n) {})).2).1 = .error e := by
    obtain ⟨worked, gs, hrun, htree, hdir⟩ := west_work (meeting (longName n) {}).1
    have huntouched : Untouched (meetingContext ["data"]).dataDir westKey
        (meeting (longName n) {})
        (reconciled (meetingContext ["data"]) westKey (meeting (longName n) {})).2 :=
      untouched_reconcile keyed_meeting tree_empty placeable_west
    have hget : (meeting (longName n) {}).1.configs.get? westKey = _ := meeting_west
    have hwest : reconciled (meetingContext ["data"]) westKey (meeting (longName n) {}) = _ :=
      reconciled_phases rfl hget hrun
    have hfiles : (reconciled (meetingContext ["data"]) westKey (meeting (longName n) {})).2.2 =
        gs := congrArg (·.2.2) hwest
    have hunseen := reconciled_unseen (meetingContext ["data"]) (key_meetingConfig _ _ _)
      ((huntouched.configs _ hne).trans (meeting_east hname)) rfl (guarded_meetingConfig _ _ _)
      (stat_overlong hn hlimit (hfiles ▸ htree) (hfiles ▸ hdir))
    exact ⟨_, hunseen.trans (if_neg (by decide))⟩
  obtain ⟨e, hlater⟩ := hlater
  have hsame := h.first
  rw [hfirst, hlater] at hsame
  cases hsame

/-- Neither names that are too long nor ways that lead up can be allowed. -/
theorem order_matters_overlong_or_up :
    OrderMatters (meetingContext ["data"]) (eastKey (longName 256)) westKey
        (meeting (longName 256) {}) ∧
      OrderMatters (meetingContext ["gone", "..", "data"]) (eastKey "east") westKey
        (meeting "east" exported) :=
  ⟨orderMatters_overlong (by decide) (by decide), orderMatters_up⟩

end Leaving

end Meeting

end Relocation
