import Relocation.Files.Calls
import Relocation.Proofs.Surroundings
import Relocation.Reconcile

/-!
Histories of runs: every request of a run with the state in which it was made and the reply that it
got. What a program keeps to while its requests are put on record is true of the history of its run
(`Keeps.history`), and of every history that it may come to when others change the state as well
(`Keeps.recorded`).
-/

set_option autoImplicit false

namespace Relocation

open Files (FileSystem)

/-- A request that was made: in which state, and how it was answered. -/
structure Event (σ : Type) where
  state : σ
  request : Request
  reply : request.Reply

abbrev StoreBehaviour (τ : Type) := (call : StoreCall) → τ → Except Error call.Result × τ

/-- The world of a store beside a tree of files. -/
def besideFiles {τ : Type} (store : StoreBehaviour τ) : Program.World (τ × FileSystem)
  | .store call, (t, fs) => ((store call t).1, (store call t).2, fs)
  | .file call, (t, fs) => ((fs.answer call).1, t, (fs.answer call).2)
  | .note _, s => ((), s)

/-- A program on its own in a world, with its requests on record. -/
def recording {σ : Type} (world : Program.World σ) (rule : List (Event σ) → Event σ → Prop) :
    Surroundings (List (Event σ) × σ) where
  others a b := a = b
  answers a q reply b := world q a.2 = (reply, b.2) ∧ b.1 = a.1 ++ [⟨a.2, q, reply⟩]
  allowed a q reply _ := rule a.1 ⟨a.2, q, reply⟩

/-- A program in a world that others change as they may, with its requests on record. -/
def recordingAmid {σ : Type} (others : σ → σ → Prop) (world : Program.World σ)
    (rule : List (Event σ) → Event σ → Prop) : Surroundings (List (Event σ) × σ) where
  others a b := a.1 = b.1 ∧ others a.2 b.2
  answers a q reply b := world q a.2 = (reply, b.2) ∧ b.1 = a.1 ++ [⟨a.2, q, reply⟩]
  allowed a q reply _ := rule a.1 ⟨a.2, q, reply⟩

namespace Program

variable {σ α : Type}

def history (world : World σ) : Program α → σ → List (Event σ)
  | .done _, _ => []
  | .ask q next, s => ⟨s, q, (world q s).1⟩ :: (next (world q s).1).history world (world q s).2

variable {world : World σ} {rule : List (Event σ) → Event σ → Prop}

section Parts

variable {β : Type}

theorem history_bind (p : Program α) (f : α → Program β) (s : σ) :
    (p >>= f).history world s = p.history world s ++
      match p.run world s with
      | (.ok a, t) => (f a).history world t
      | (.error _, _) => [] := by
  induction p generalizing s with
  | done r => cases r <;> rfl
  | ask q next ih => exact congrArg _ (ih _ _)

theorem mem_history_bind {p : Program α} {f : α → Program β} {s : σ} {e : Event σ} :
    e ∈ (p >>= f).history world s ↔ e ∈ p.history world s ∨
      ∃ a t, p.run world s = (.ok a, t) ∧ e ∈ (f a).history world t := by
  rw [history_bind, List.mem_append]
  refine or_congr Iff.rfl ?_
  rcases p.run world s with ⟨e' | a, t⟩
  · exact ⟨nofun, fun ⟨_, _, hrun, _⟩ => nomatch hrun⟩
  · refine ⟨fun he => ⟨a, t, rfl, he⟩, fun ⟨_, _, hrun, he⟩ => ?_⟩
    cases hrun
    exact he

@[simp] theorem history_attempt (p : Program α) (s : σ) :
    p.attempt.history world s = p.history world s := by
  induction p generalizing s with
  | done r => rfl
  | ask q next ih => exact congrArg _ (ih _ _)

theorem Only.history {kind : Request → Prop} {p : Program α} (hp : p.Only kind) (s : σ) :
    ∀ e ∈ p.history world s, kind e.request := by
  induction p generalizing s with
  | done r => exact fun _ he => nomatch he
  | ask q next ih => exact List.forall_mem_cons.2 ⟨hp.1, ih _ (hp.2 _) _⟩

end Parts

theorem keeps_ask {post : Except Error α → List (Event σ) × σ → Prop} {q : Request}
    {next : q.Reply → Program α} {past : List (Event σ)} {s : σ}
    (h : ∀ reply t, world q s = (reply, t) → rule past ⟨s, q, reply⟩ ∧
      (next reply).Keeps (recording world rule) post (past ++ [⟨s, q, reply⟩], t)) :
    (ask q next).Keeps (recording world rule) post (past, s) := by
  rintro a rfl reply ⟨past', t⟩ ⟨hworld, rfl⟩
  exact h reply t hworld

/-- What a program keeps to while it is on record is true of its history and of how it ends. -/
theorem Keeps.history {post : Except Error α → List (Event σ) × σ → Prop} {p : Program α}
    {past : List (Event σ)} {s : σ} (h : p.Keeps (recording world rule) post (past, s)) :
    (∀ before e after, p.history world s = before ++ e :: after → rule (past ++ before) e) ∧
      post (p.run world s).1 (past ++ p.history world s, (p.run world s).2) := by
  induction p generalizing past s with
  | done r =>
    refine ⟨fun before e after hsplit => ?_, by simpa [Program.history, run, Keeps] using h⟩
    simp [Program.history] at hsplit
  | ask q next ih =>
    obtain ⟨hrule, hnext⟩ := h (past, s) rfl (world q s).1
      (past ++ [⟨s, q, (world q s).1⟩], (world q s).2) ⟨rfl, rfl⟩
    obtain ⟨hlater, hpost⟩ := ih _ hnext
    refine ⟨fun before e after hsplit => ?_, by simpa [Program.history, run] using hpost⟩
    rw [Program.history] at hsplit
    rcases List.cons_eq_append_iff.1 hsplit with ⟨rfl, he⟩ | ⟨before, rfl, he⟩
    · obtain ⟨rfl, -⟩ := List.cons_eq_cons.1 he
      simpa [recording] using hrule
    · simpa using hlater before e after he

theorem Keeps.with_run {post : Except Error α → List (Event σ) × σ → Prop} {p : Program α}
    {past : List (Event σ)} {s : σ} (h : p.Keeps (recording world rule) post (past, s)) :
    p.Keeps (recording world rule) (fun r a => post r a ∧ p.run world s = (r, a.2)) (past, s) := by
  induction p generalizing past s with
  | done r => exact ⟨h, rfl⟩
  | ask q next ih =>
    refine keeps_ask fun reply t hworld => ?_
    obtain ⟨hrule, hnext⟩ := h (past, s) rfl reply (past ++ [⟨s, q, reply⟩], t) ⟨hworld, rfl⟩
    refine ⟨hrule, (ih reply hnext).mono fun r a => ?_⟩
    rintro ⟨hpost, hrun⟩
    exact ⟨hpost, by simp only [run, hworld, hrun]⟩

section Amid

variable {others : σ → σ → Prop}

theorem keeps_ask_amid {post : Except Error α → List (Event σ) × σ → Prop} {q : Request}
    {next : q.Reply → Program α} {past : List (Event σ)} {s : σ}
    (h : ∀ t, others s t → ∀ reply u, world q t = (reply, u) → rule past ⟨t, q, reply⟩ ∧
      (next reply).Keeps (recordingAmid others world rule) post (past ++ [⟨t, q, reply⟩], u)) :
    (ask q next).Keeps (recordingAmid others world rule) post (past, s) := by
  rintro ⟨_, t⟩ ⟨rfl, ht⟩ reply ⟨past', u⟩ ⟨hworld, rfl⟩
  exact h t ht reply u hworld

/-- What a program keeps to among others is true of every history that it may come to. -/
theorem Keeps.recorded {post : Except Error α → List (Event σ) × σ → Prop} {p : Program α}
    {a b : List (Event σ) × σ} {r : Except Error α}
    {rule' : List (Event σ) → Event σ → Prop}
    (h : p.Keeps (recordingAmid others world rule) post a)
    (hcourse : p.Course (recordingAmid others world rule') a r b) :
    (∃ new, b.1 = a.1 ++ new ∧
      ∀ before e after, new = before ++ e :: after → rule (a.1 ++ before) e) ∧ post r b := by
  induction hcourse with
  | done => exact ⟨⟨[], by simp⟩, h⟩
  | @ask q next a a' b' b reply r hothers hanswers _ ih =>
    obtain ⟨hallowed, hnext⟩ := h a' hothers reply b' hanswers
    have hrule : rule a.1 ⟨a'.2, q, reply⟩ := hothers.1 ▸ hallowed
    have hb' : b'.1 = a.1 ++ [⟨a'.2, q, reply⟩] := hothers.1 ▸ hanswers.2
    obtain ⟨⟨new, hb, hlater⟩, hpost⟩ := ih hnext
    rw [hb'] at hb hlater
    refine ⟨⟨⟨a'.2, q, reply⟩ :: new, by simpa using hb, fun before e after hsplit => ?_⟩, hpost⟩
    rcases List.cons_eq_append_iff.1 hsplit with ⟨rfl, he⟩ | ⟨before, rfl, he⟩
    · obtain ⟨rfl, -⟩ := List.cons_eq_cons.1 he
      simpa using hrule
    · simpa using hlater before e after he

/-- A run in a world is a course among others who may leave everything as it is. -/
theorem course_history (hothers : ∀ s, others s s) (p : Program α) (past : List (Event σ)) (s : σ) :
    p.Course (recordingAmid others world rule) (past, s) (p.run world s).1
      (past ++ p.history world s, (p.run world s).2) := by
  induction p generalizing past s with
  | done r =>
    rw [Program.history, List.append_nil]
    exact .done
  | ask q next ih =>
    have hlater := ih (world q s).1 (past ++ [⟨s, q, (world q s).1⟩]) (world q s).2
    rw [List.append_assoc] at hlater
    exact .ask (t := (past, s)) ⟨rfl, hothers s⟩ ⟨rfl, rfl⟩ hlater

end Amid

end Program

/-- The context of the runs on fixed inputs: a data directory of one name, and a service. -/
def sampleContext : ReconcileContext := ⟨⟨true, ["data"]⟩, "http://images"⟩

end Relocation
