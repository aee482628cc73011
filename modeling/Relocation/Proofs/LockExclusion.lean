import Relocation.Proofs.Files.Growth
import Relocation.Proofs.Requests
import Relocation.Proofs.Runs

/-!
What the write lock of an export directory excludes. Any number of exports and removals of one key
make their requests in any order on one tree of files, and the store answers them anything. As long
as nothing is taken away, at most one of them has the lock (`inv_reaches`); once a removal takes the
lock file away, the next call makes and locks another one beside it. So the lock excludes, whatever
the tree and the order of requests, exactly when none of the calls is a removal or there is only one
call (`exclusive_iff`).
-/

set_option autoImplicit false

namespace Relocation

open Files (FileSystem)
open Program

/-- A call of the exporter for a key. -/
inductive ExporterCall (key : ObjectKey)
  | store (config : ClusterConfig) (of_key : config.key = key)
  | remove

namespace ExporterCall

variable {key : ObjectKey}

def program (dataDir : Path) : ExporterCall key → Program Outcome
  | .store config _ => exportConfig dataDir config
  | .remove => removeExport dataDir key

def removes : ExporterCall key → Bool
  | .store _ _ => false
  | .remove => true

end ExporterCall

/-- How a request is answered by a tree of files; the store may answer anything. -/
inductive Served : FileSystem → (q : Request) → q.Reply → FileSystem → Prop
  | store {fs : FileSystem} (call : StoreCall) (reply : Except Error call.Result) :
      Served fs (.store call) reply fs
  | file {fs : FileSystem} (call : FileCall) :
      Served fs (.file call) (fs.answer call).1 (fs.answer call).2
  | note {fs : FileSystem} (notice : Notice) : Served fs (.note notice) () fs

/-- The file that a call has locked, after a reply: the one that it just locked, until it gives it
back. -/
def guardAfter (guard : Option Nat) : (q : Request) → q.Reply → Option Nat
  | .file (.tryLock inode), .ok true => some inode
  | .file (.release _), _ => none
  | _, _ => guard

/-- Calls beside each other: the files, how far each call has come, and the file that it has
locked. -/
structure Race (ι : Type) where
  files : FileSystem
  program : ι → Program Outcome
  guard : ι → Option Nat

namespace Race

variable {ι : Type} [DecidableEq ι] {s t : Race ι} {i j : ι} {dataDir : Path} {key : ObjectKey}
  {kind : Request → Prop}

def ofCalls (dataDir : Path) (fs : FileSystem) (calls : ι → ExporterCall key) : Race ι :=
  ⟨fs, fun i => (calls i).program dataDir, fun _ => none⟩

def set (s : Race ι) (i : ι) (p : Program Outcome) (world : FileSystem × Option Nat) : Race ι where
  files := world.1
  program j := if j = i then p else s.program j
  guard j := if j = i then world.2 else s.guard j

/-- The states that a race comes to by requests of one kind, in any order. -/
inductive Reaches (kind : Request → Prop) (start : Race ι) : Race ι → Prop
  | start : Reaches kind start start
  | request {s : Race ι} {i : ι} {q : Request} {next : q.Reply → Program Outcome}
      {reply : q.Reply} {fs : FileSystem} :
      Reaches kind start s → s.program i = .ask q next → kind q → Served s.files q reply fs →
      Reaches kind start (s.set i (next reply) (fs, guardAfter (s.guard i) q reply))

/-- At most one call has a lock, and no other call is about to write an artifact. -/
structure Exclusive (s : Race ι) : Prop where
  guards : ∀ i j, s.guard i ≠ none → s.guard j ≠ none → i = j
  writes : ∀ i j q next, s.guard i ≠ none → s.program j = .ask q next → q.Writes → i = j

end Race

section Rival

variable {lock : Path} {s t : FileSystem × Option Nat} {α : Type}

/-- A call among others that take nothing away: it locks nothing but what the path of the lock led
to, writes only what it has locked, and gives back only what it has locked itself. -/
def rival (lock : Path) : Surroundings (FileSystem × Option Nat) where
  others s t := s.1.Grows t.1 ∧ t.2 = s.2
  answers s q reply t := Served s.1 q reply t.1 ∧ t.2 = guardAfter s.2 q reply
  allowed s q _ _ := (∀ inode, q = .file (.tryLock inode) → s.2 = none ∧ s.1.Names lock inode) ∧
    (q.Writes → s.2 ≠ none) ∧ ∀ inode, q = .file (.release inode) → s.2 = some inode

private theorem guardAfter_of_not_locks {guard : Option Nat} {q : Request} {reply : q.Reply}
    (h : ¬q.Locks) : guardAfter guard q reply = guard := by
  cases q with
  | file call => cases call <;> first | rfl | exact absurd trivial h
  | _ => rfl

private theorem rival_guard {p : Program α} {guard : Option Nat}
    (hp : p.Only fun q => ¬q.Locks ∧ (q.Writes → guard ≠ none)) (hs : s.2 = guard) :
    p.Keeps (rival lock) (fun _ t => t.2 = guard) s := by
  refine Only.keeps hp hs ?_ ?_
  · intro a b ha hab
    exact hab.2.trans ha
  · rintro a q reply b ha ⟨hlocks, hwrites⟩ ⟨-, hb⟩
    refine ⟨⟨?_, ha ▸ hwrites, ?_⟩, ?_⟩
    · rintro inode rfl
      exact absurd trivial hlocks
    · rintro inode rfl
      exact absurd trivial hlocks
    · rw [hb, guardAfter_of_not_locks hlocks, ha]

private theorem allowed_of_idle {a b : FileSystem × Option Nat} {q : Request} {reply : q.Reply}
    (hlocks : ¬q.Locks) (hwrites : ¬q.Writes) : (rival lock).allowed a q reply b := by
  refine ⟨?_, fun h => absurd h hwrites, ?_⟩
  · rintro inode rfl
    exact absurd trivial hlocks
  · rintro inode rfl
    exact absurd trivial hlocks

private theorem rival_tryWriteLock {dir : Path} (hs : s.2 = none) :
    (tryWriteLock dir).Keeps (rival (dir.join lockFileName)) (fun r t =>
      t.2 = match r with
        | .ok taken => taken
        | .error _ => none) s := by
  rintro a ⟨-, ha⟩ opened b ⟨hopened, hb⟩
  refine ⟨allowed_of_idle id id, ?_⟩
  have hfree : b.2 = none := hb.trans (ha.trans hs)
  cases opened with
  | error e => exact hfree
  | ok inode =>
    have hnames : b.1.Names (dir.join lockFileName) inode := by
      generalize hfs : b.1 = fs at hopened
      generalize hreply : (Except.ok inode : Except Files.IoError Nat) = reply at hopened
      cases hopened
      exact FileSystem.names_of_opened (Prod.ext hreply.symm rfl)
    rintro c ⟨hgrows, hc⟩ locked d ⟨-, hd⟩
    have hfree : c.2 = none := hc.trans hfree
    refine ⟨⟨?_, fun h => h.elim, ?_⟩, ?_⟩
    · intro number heq
      cases heq
      exact ⟨hfree, hgrows.names hnames⟩
    · intro number heq
      cases heq
    · rcases locked with e | free
      · exact hd.trans hfree
      · cases free with
        | false => exact hd.trans hfree
        | true => exact hd

private theorem rival_withWriteLock {dir : Path} {action : Program α}
    (haction : action.Only (¬·.Locks)) (hs : s.2 = none) :
    (withWriteLock dir action).Keeps (rival (dir.join lockFileName)) (fun _ t => t.2 = none) s := by
  refine keeps_bind.2 ((rival_tryWriteLock hs).mono ?_)
  rintro (e | taken) t ht
  · exact ht
  · cases taken with
    | none => exact ht
    | some inode =>
      have working : action.Only fun q => ¬q.Locks ∧ (q.Writes → some inode ≠ none) :=
        haction.mono fun q hq => ⟨hq, fun _ => nofun⟩
      refine keeps_bind.2 (keeps_attempt.2 ((rival_guard working ht).mono ?_))
      rintro r u hu a ⟨-, ha⟩ reply b ⟨-, hb⟩
      have hheld : a.2 = some inode := ha.trans hu
      refine ⟨⟨?_, fun h => h.elim, ?_⟩, ?_⟩
      · intro number heq
        cases heq
      · intro number heq
        cases heq
        exact hheld
      · cases r with
        | ok a => exact hb
        | error e => exact hb

private theorem rival_idle {p : Program α} (hp : p.Only fun q => ¬q.Locks ∧ ¬q.Writes)
    (hs : s.2 = none) : p.Keeps (rival lock) (fun _ t => t.2 = none) s :=
  rival_guard (hp.mono fun _ hq => ⟨hq.1, fun hwrites => absurd hwrites hq.2⟩) hs

private theorem rival_lockedOutcome {key : ObjectKey} (result : Option Unit) (hs : s.2 = none) :
    (lockedOutcome key result).Keeps (rival lock) (fun _ t => t.2 = none) s :=
  rival_idle (lockedOutcome_only (fun _ => ⟨id, id⟩) key result) hs

private theorem rival_then {β : Type} {p : Program α} {f : α → Program β}
    (hp : p.Keeps (rival lock) (fun _ t => t.2 = none) s)
    (hf : ∀ a t, t.2 = none → (f a).Keeps (rival lock) (fun _ u => u.2 = none) t) :
    (p >>= f).Keeps (rival lock) (fun _ t => t.2 = none) s := by
  refine keeps_bind.2 (hp.mono ?_)
  rintro (e | a) t ht
  · exact ht
  · exact hf a t ht

private theorem rival_exportConfig (dataDir : Path) (c : ClusterConfig) (hs : s.2 = none) :
    (exportConfig dataDir c).Keeps (rival ((exportDirs dataDir c.key).lock.join lockFileName))
      (fun _ t => t.2 = none) s := by
  refine rival_then (rival_idle (collect_only fun _ _ => ⟨id, id⟩) hs) fun artifacts t ht => ?_
  refine rival_then (rival_idle (only_file ⟨id, id⟩) ht) fun _ u hu => ?_
  have writing : (writeArtifacts (exportDirs dataDir c.key).files artifacts).Only (¬·.Locks) :=
    writeArtifacts_only (fun _ => id) (fun _ _ => id) artifacts
  exact rival_then (rival_withWriteLock writing hu) fun written v hv =>
    rival_lockedOutcome written hv

private theorem rival_removeExport (dataDir : Path) (key : ObjectKey) (hs : s.2 = none) :
    (removeExport dataDir key).Keeps (rival ((exportDirs dataDir key).lock.join lockFileName))
      (fun _ t => t.2 = none) s := by
  refine rival_then (rival_idle (only_tryFile ⟨id, id⟩) hs) fun found t ht => ?_
  cases found with
  | error e =>
    dsimp only
    split <;> exact ht
  | ok u =>
    have removing : (Program.note (.filesRemoved key) >>= fun _ =>
        removeTree (exportDirs dataDir key).lock).Only (¬·.Locks) :=
      .bind (only_note id) fun _ => .bind (only_file id) fun _ =>
        removeAll_only fun _ _ => id
    exact rival_then (rival_withWriteLock removing ht) fun removed u hu =>
      rival_lockedOutcome removed hu

theorem rival_program (dataDir : Path) {key : ObjectKey} (call : ExporterCall key)
    (hs : s.2 = none) :
    (call.program dataDir).Keeps (rival ((exportDirs dataDir key).lock.join lockFileName))
      (fun _ t => t.2 = none) s := by
  cases call with
  | store c of_key =>
    have keeps := rival_exportConfig dataDir c hs
    rwa [of_key] at keeps
  | remove => exact rival_removeExport dataDir key hs

end Rival

private theorem served_cases {fs fs' : FileSystem} {q : Request} {reply : q.Reply}
    (h : Served fs q reply fs') (hq : ¬q.Removes) (guard : Option Nat) :
    fs.Grows fs' ∧ ((guardAfter guard q reply = guard ∧ fs'.held = fs.held) ∨
      (∃ inode, q = .file (.tryLock inode) ∧ guardAfter guard q reply = some inode ∧
        inode ∉ fs.held ∧ inode ∈ fs'.held) ∨
      ∃ inode, q = .file (.release inode) ∧ guardAfter guard q reply = none) := by
  cases h with
  | store call reply => exact ⟨.refl fs, .inl ⟨rfl, rfl⟩⟩
  | note notice => exact ⟨.refl fs, .inl ⟨rfl, rfl⟩⟩
  | file call =>
    have hremove : ∀ step, call ≠ .remove step := by
      rintro step rfl
      exact hq trivial
    refine ⟨FileSystem.grows_answer hremove, ?_⟩
    by_cases htry : ∃ inode, call = .tryLock inode
    · obtain ⟨inode, rfl⟩ := htry
      by_cases hheld : inode ∈ fs.held
      · rw [FileSystem.answer_tryLock_held hheld]
        exact .inl ⟨rfl, rfl⟩
      · rw [FileSystem.answer_tryLock_free hheld]
        exact .inr (.inl ⟨inode, rfl, rfl, hheld, List.mem_cons_self⟩)
    · by_cases hrelease : ∃ inode, call = .release inode
      · obtain ⟨inode, rfl⟩ := hrelease
        exact .inr (.inr ⟨inode, rfl, rfl⟩)
      · simp only [not_exists] at htry hrelease
        refine .inl ⟨guardAfter_of_not_locks ?_,
          (FileSystem.builds_answer hremove htry hrelease).held⟩
        intro hlocks
        cases call with
        | tryLock inode => exact htry inode rfl
        | release inode => exact hrelease inode rfl
        | _ => exact hlocks

namespace Race

variable {ι : Type} {s t : Race ι} {i j : ι} {dataDir lock : Path} {key : ObjectKey}
  {kind : Request → Prop}

/-- What is true of a race as long as nothing is taken away: every lock is on the file that the path
of the lock leads to. -/
structure Inv (lock : Path) (s : Race ι) : Prop where
  running : ∀ i, (s.program i).Keeps (rival lock) (fun _ t => t.2 = none) (s.files, s.guard i)
  locked : ∀ i inode, s.guard i = some inode →
    s.files.Names lock inode ∧ inode ∈ s.files.held
  exclusive : ∀ i j, s.guard i ≠ none → s.guard j ≠ none → i = j

theorem inv_ofCalls (fs : FileSystem) (calls : ι → ExporterCall key) :
    Inv ((exportDirs dataDir key).lock.join lockFileName) (ofCalls dataDir fs calls) where
  running i := rival_program dataDir (calls i) rfl
  locked i inode h := by cases h
  exclusive i j h := absurd rfl h

private theorem guard_of_locked (hs : Inv lock s) {inode : Nat} (hnames : s.files.Names lock inode)
    (hfree : inode ∉ s.files.held) (j : ι) : s.guard j = none := by
  cases hj : s.guard j with
  | none => rfl
  | some number =>
    obtain ⟨hnumber, hheld⟩ := hs.locked j number hj
    obtain rfl := hnumber.inode_eq hnames
    exact absurd hheld hfree

section Request

variable [DecidableEq ι] {p : Program Outcome} {world : FileSystem × Option Nat}

private theorem guard_set_self (fs : FileSystem) : (s.set i p (fs, s.guard i)).guard = s.guard := by
  funext j
  simp only [set]
  split
  · rename_i hj
    rw [hj]
  · rfl

private theorem eq_of_guard_set (hothers : ∀ j, j ≠ i → s.guard j = none)
    (hj : (s.set i p world).guard j ≠ none) : j = i := by
  refine Decidable.byContradiction fun hne => hj ?_
  simp [set, hne, hothers j hne]

private theorem keeps_set (hs : Inv lock s) (hgrows : s.files.Grows world.1)
    (hp : p.Keeps (rival lock) (fun _ t => t.2 = none) world) (j : ι) :
    ((s.set i p world).program j).Keeps (rival lock) (fun _ t => t.2 = none)
      (world.1, (s.set i p world).guard j) := by
  by_cases hj : j = i
  · simpa [set, hj] using hp
  · simp only [set, hj, if_false]
    refine (hs.running j).of_others ?_ ?_ ⟨hgrows, rfl⟩
    · exact fun hab hbc => ⟨hab.1.trans hbc.1, hbc.2.trans hab.2⟩
    · exact fun ha hab => hab.2.trans ha

theorem inv_request {q : Request} {next : q.Reply → Program Outcome} {reply : q.Reply}
    {fs : FileSystem} (hs : Inv lock s) (hi : s.program i = .ask q next) (hq : ¬q.Removes)
    (hserved : Served s.files q reply fs) :
    Inv lock (s.set i (next reply) (fs, guardAfter (s.guard i) q reply)) := by
  have hkeeps := hs.running i
  rw [hi] at hkeeps
  obtain ⟨⟨htry, -, hrelease⟩, hnext⟩ := hkeeps _ ⟨.refl s.files, rfl⟩ reply
    (fs, guardAfter (s.guard i) q reply) ⟨hserved, rfl⟩
  obtain ⟨hgrows, hcases⟩ := served_cases hserved hq (s.guard i)
  have hrunning := keeps_set (i := i) hs hgrows hnext
  rcases hcases with ⟨hguard, hheld⟩ | ⟨inode, rfl, hguard, hfree, hheld⟩ | ⟨inode, rfl, hguard⟩
  · -- no lock is taken or given back
    rw [hguard] at hrunning ⊢
    refine ⟨hrunning, ?_, ?_⟩
    · intro j inode hj
      rw [guard_set_self] at hj
      obtain ⟨hnames, hmem⟩ := hs.locked j inode hj
      exact ⟨hgrows.names hnames, hheld.symm ▸ hmem⟩
    · rw [guard_set_self]
      exact hs.exclusive
  · -- the lock is taken: nobody had it
    rw [hguard] at hrunning ⊢
    have hnames := (htry inode rfl).2
    have honly {j : ι} (hj : (s.set i (next reply) (fs, some inode)).guard j ≠ none) : j = i :=
      eq_of_guard_set (fun j _ => guard_of_locked hs hnames hfree j) hj
    refine ⟨hrunning, ?_, fun j k hj hk => (honly hj).trans (honly hk).symm⟩
    intro j number hj
    obtain rfl : j = i := honly (by simp [hj])
    obtain rfl : inode = number := by simpa [set] using hj
    exact ⟨hgrows.names hnames, hheld⟩
  · -- the lock is given back: whoever had it was the only one
    have hmine : s.guard i = some inode := hrelease inode rfl
    have hothers (j : ι) (hj : j ≠ i) : s.guard j = none := by
      cases hguard : s.guard j with
      | none => rfl
      | some number => exact absurd (hs.exclusive j i (by simp [hguard]) (by simp [hmine])) hj
    rw [hguard] at hrunning ⊢
    have hnobody (j : ι) : (s.set i (next reply) (fs, none)).guard j = none := by
      by_cases hj : j = i
      · simp [set, hj]
      · simp [set, hj, hothers j hj]
    exact ⟨hrunning, fun j number hj => by simp [hnobody j] at hj,
      fun j _ hj => absurd (hnobody j) hj⟩

end Request

private theorem writer_guarded {q : Request} {next : q.Reply → Program Outcome} (hs : Inv lock s)
    (hj : s.program j = .ask q next) (hwrites : q.Writes) : s.guard j ≠ none := by
  have hkeeps := hs.running j
  rw [hj] at hkeeps
  cases q with
  | file call =>
    exact (hkeeps _ ⟨.refl s.files, rfl⟩ _ (_, _) ⟨.file call, rfl⟩).1.2.1 hwrites
  | store call => exact hwrites.elim
  | note notice => exact hwrites.elim

theorem exclusive_of_inv (hs : Inv lock s) : s.Exclusive where
  guards := hs.exclusive
  writes i j _ _ hi hj hwrites := hs.exclusive i j hi (writer_guarded hs hj hwrites)

section Reaches

variable [DecidableEq ι] {start : Race ι}

/-- As long as nothing is taken away, the lock excludes, whatever the calls are. -/
theorem inv_reaches (hstart : Inv lock start) (h : Reaches (¬·.Removes) start s) : Inv lock s := by
  induction h with
  | start => exact hstart
  | request _ hi hq hserved ih => exact inv_request ih hi hq hserved

theorem reaches_of_only (honly : ∀ i, (start.program i).Only kind)
    (h : Reaches (fun _ => True) start s) :
    Reaches kind start s ∧ ∀ i, (s.program i).Only kind := by
  induction h with
  | start => exact ⟨.start, honly⟩
  | @request s i q next reply fs _ hi _ hserved ih =>
    obtain ⟨hreaches, hs⟩ := ih
    have hnext := hs i
    rw [hi] at hnext
    refine ⟨hreaches.request hi hnext.1 hserved, fun j => ?_⟩
    by_cases hj : j = i
    · simpa [set, hj] using hnext.2 reply
    · simpa [set, hj] using hs j

theorem exclusive_of_exports (fs : FileSystem) (calls : ι → ExporterCall key)
    (hcalls : ∀ i, (calls i).removes = false)
    (h : Reaches (fun _ => True) (ofCalls dataDir fs calls) s) : s.Exclusive := by
  have honly (i : ι) : ((ofCalls dataDir fs calls).program i).Only (¬·.Removes) := by
    simp only [ofCalls]
    cases hcall : calls i with
    | store c of_key =>
      exact (exportConfig_only dataDir c).mono fun q hq => by cases hq <;> exact id
    | remove =>
      have hexport := hcalls i
      rw [hcall] at hexport
      cases hexport
  exact exclusive_of_inv (inv_reaches (inv_ofCalls fs calls) (reaches_of_only honly h).1)

end Reaches

section Removal

variable [DecidableEq ι] {start : Race ι}

private def undisturbed : World (FileSystem × Option Nat)
  | .store _, s => (.error (.internal ""), s)
  | .file call, (fs, guard) =>
    ((fs.answer call).1, (fs.answer call).2, guardAfter guard (.file call) (fs.answer call).1)
  | .note _, s => ((), s)

private theorem served_undisturbed (q : Request) (world : FileSystem × Option Nat) :
    Served world.1 q (undisturbed q world).1 (undisturbed q world).2.1 ∧
      (undisturbed q world).2.2 = guardAfter world.2 q (undisturbed q world).1 := by
  cases q with
  | store call => exact ⟨.store call _, rfl⟩
  | file call => exact ⟨.file call, rfl⟩
  | note notice => exact ⟨.note notice, rfl⟩

private theorem set_again (p p' : Program Outcome) (world world' : FileSystem × Option Nat) :
    (s.set i p world).set i p' world' = s.set i p' world' := by
  simp only [set, mk.injEq, true_and]
  constructor <;> funext j <;> split <;> rfl

private theorem set_same : s.set i (s.program i) (s.files, s.guard i) = s := by
  obtain ⟨files, program, guard⟩ := s
  simp only [set, mk.injEq, true_and]
  constructor <;> funext j <;> split <;> simp_all

theorem Reaches.after (h : Reaches (fun _ => True) start s) {p : Program Outcome}
    (hp : s.program i = p) (n : Nat) :
    Reaches (fun _ => True) start (s.set i (p.after undisturbed n (s.files, s.guard i)).1
      (p.after undisturbed n (s.files, s.guard i)).2) := by
  induction n generalizing s p with
  | zero => rwa [Program.after, ← hp, set_same]
  | succ n ih =>
    cases p with
    | done r => rwa [Program.after, ← hp, set_same]
    | ask q next =>
      obtain ⟨hserved, hguard⟩ := served_undisturbed q (s.files, s.guard i)
      have later := ih (h.request hp trivial hserved) (if_pos rfl)
      simp only [set_again, ← hguard] at later
      simp only [set, if_true] at later
      exact later

private def exported : FileSystem where
  entries := ((Table.empty.insert ["namespaces"] (.directory 0o700)).insert ["namespaces", "edge"]
    (.directory 0o700)).insert ["namespaces", "edge", "site"] (.directory 0o700)

private def siteKey : ObjectKey := ⟨"edge", "site"⟩

private def siteConfig : ClusterConfig where
  metadata := { name := some "site", space := some "edge" }
  spec := { relocation := { domain := "example.com" } }

private def root : Path := ⟨true, []⟩

private def ofKinds (removes : ι → Bool) (i : ι) : ExporterCall siteKey :=
  if removes i then .remove else .store siteConfig rfl

private def removing : Program Outcome × FileSystem × Option Nat :=
  (removeExport root siteKey).after undisturbed 6 (exported, none)

private theorem removing_guard : removing.2.2 = some 0 := rfl

private theorem beside_removal {calls : ι → ExporterCall siteKey} (hi : calls i = .remove)
    (hne : j ≠ i) (n : Nat) : ∃ s, Reaches (fun _ => True) (ofCalls root exported calls) s ∧
      s.guard i = some 0 ∧
      s.program j = (((calls j).program root).after undisturbed n (removing.2.1, none)).1 ∧
      s.guard j = (((calls j).program root).after undisturbed n (removing.2.1, none)).2.2 := by
  have hremoval : (ofCalls root exported calls).program i = removeExport root siteKey :=
    congrArg (·.program root) hi
  have first : Reaches (fun _ => True) (ofCalls root exported calls)
      ((ofCalls root exported calls).set i removing.1 removing.2) := Reaches.start.after hremoval 6
  have waiting : ((ofCalls root exported calls).set i removing.1 removing.2).guard j = none :=
    if_neg hne
  have second := first.after (i := j) (if_neg hne) n
  rw [waiting] at second
  refine ⟨_, second, ?_, if_pos rfl, if_pos rfl⟩
  rw [← removing_guard]
  simp only [set, if_neg hne.symm, if_true]

/-- A removal that is under way, and an export that has locked the directory as well and is about to
write. -/
theorem removal_and_export_both_locked :
    ∃ s : Race Bool, Reaches (fun _ => True) (ofCalls root exported (ofKinds id)) s ∧
      s.guard true = some 0 ∧ s.guard false = some 1 ∧
      ∃ q next, s.program false = .ask q next ∧ q.Writes := by
  have hremove : ofKinds id true = .remove := rfl
  obtain ⟨s, hs, hremoval, hprogram, hexport⟩ := beside_removal hremove (j := false) nofun 4
  exact ⟨s, hs, hremoval, hexport, _, _, hprogram, trivial⟩

end Removal

private theorem removes_ofKinds (removes : ι → Bool) (i : ι) :
    (ofKinds removes i).removes = removes i := by
  unfold ofKinds
  split <;> simp_all [ExporterCall.removes]

private theorem locks_ofKinds (removes : ι → Bool) (j : ι) :
    (((ofKinds removes j).program root).after undisturbed 3 (removing.2.1, none)).2.2 = some 1 := by
  unfold ofKinds
  split <;> rfl

/-- Whichever of some calls are removals: in every tree and for every data directory, key and
configs, the lock excludes in all that the calls can come to exactly when none of them is a removal
or there is only one. -/
theorem exclusive_iff {ι : Type} [DecidableEq ι] (removes : ι → Bool) :
    (∀ (dataDir : Path) (key : ObjectKey) (fs : FileSystem) (calls : ι → ExporterCall key),
        (∀ i, (calls i).removes = removes i) →
        ∀ s, Reaches (fun _ => True) (ofCalls dataDir fs calls) s → s.Exclusive) ↔
      (∀ i, removes i = false) ∨ ∀ i j : ι, i = j := by
  constructor
  · intro hexclusive
    by_cases hexports : ∀ i, removes i = false
    · exact .inl hexports
    obtain ⟨i, hi⟩ : ∃ i, removes i = true := by simpa using hexports
    by_cases hone : ∀ j, j = i
    · exact .inr fun j k => (hone j).trans (hone k).symm
    obtain ⟨j, hne⟩ : ∃ j, j ≠ i := by simpa using hone
    have hremove : ofKinds removes i = .remove := if_pos hi
    obtain ⟨s, hs, hremoval, -, hother⟩ := beside_removal hremove hne 3
    rw [locks_ofKinds] at hother
    have hs := hexclusive root siteKey exported _ (removes_ofKinds removes) s hs
    exact absurd (hs.guards j i (by simp [hother]) (by simp [hremoval])) hne
  · rintro (hexports | hone) dataDir key fs calls hcalls s hs
    · exact exclusive_of_exports fs calls (fun i => (hcalls i).trans (hexports i)) hs
    · exact ⟨fun i j _ _ => hone i j, fun i j _ _ _ _ _ => hone i j⟩

end Race

end Relocation
