import Relocation.WriteLock

/-!
What every run of a program keeps to, whatever it is answered and whatever others do to the state
between two of its requests. The main statements: one program after another keeps to what both keep
to (`keeps_bind`), what others do in the meantime takes nothing away (`Keeps.of_others`), and a
program that makes requests of one kind only carries an invariant of that kind to its end
(`Only.keeps`).
-/

set_option autoImplicit false

namespace Relocation

/-- What surrounds a program: the changes that others make between its requests, the ways in which a
request may be answered, and the steps that the program may take. -/
structure Surroundings (σ : Type) where
  others : σ → σ → Prop
  answers : σ → (request : Request) → request.Reply → σ → Prop
  allowed : σ → (request : Request) → request.Reply → σ → Prop

namespace Program

variable {σ α β γ : Type}

theorem bind_def (p : Program α) (f : α → Program β) : (p >>= f) = p.bind f := rfl

theorem pure_def (a : α) : (pure a : Program α) = .done (.ok a) := rfl

theorem bind_assoc (p : Program α) (f : α → Program β) (g : β → Program γ) :
    (p.bind f).bind g = p.bind fun a => (f a).bind g := by
  induction p with
  | done r => cases r <;> rfl
  | ask q next ih =>
    simp only [bind]
    congr 1
    funext reply
    exact ih reply

/-- Every run from a state takes allowed steps only, and ends as it should. -/
def Keeps (w : Surroundings σ) (post : Except Error α → σ → Prop) : Program α → σ → Prop
  | .done r, s => post r s
  | .ask q next, s => ∀ t, w.others s t → ∀ reply u, w.answers t q reply u →
      w.allowed t q reply u ∧ (next reply).Keeps w post u

/-- How a program has to end so that another one after it ends as it should. -/
def Then (w : Surroundings σ) (f : α → Program β) (post : Except Error β → σ → Prop) :
    Except Error α → σ → Prop
  | .ok a, s => (f a).Keeps w post s
  | .error e, s => post (.error e) s

section Keeps

variable {w : Surroundings σ}

theorem keeps_bind {post : Except Error β → σ → Prop} {p : Program α} {f : α → Program β} {s : σ} :
    (p >>= f).Keeps w post s ↔ p.Keeps w (Then w f post) s := by
  induction p generalizing s with
  | done r => cases r <;> exact Iff.rfl
  | ask q next ih =>
    refine forall_congr' fun t => forall_congr' fun _ => forall_congr' fun reply =>
      forall_congr' fun u => forall_congr' fun _ => and_congr_right fun _ => ?_
    exact ih reply

theorem keeps_attempt {post : Except Error (Except Error α) → σ → Prop} {p : Program α} {s : σ} :
    p.attempt.Keeps w post s ↔ p.Keeps w (fun r => post (.ok r)) s := by
  induction p generalizing s with
  | done r => exact Iff.rfl
  | ask q next ih =>
    refine forall_congr' fun t => forall_congr' fun _ => forall_congr' fun reply =>
      forall_congr' fun u => forall_congr' fun _ => and_congr_right fun _ => ?_
    exact ih reply

theorem Keeps.mono {post post' : Except Error α → σ → Prop} {p : Program α} {s : σ}
    (h : p.Keeps w post s) (himp : ∀ r t, post r t → post' r t) : p.Keeps w post' s := by
  induction p generalizing s with
  | done r => exact himp r s h
  | ask q next ih =>
    intro t ht reply u hu
    exact ⟨(h t ht reply u hu).1, ih reply (h t ht reply u hu).2⟩

/-- What others do before the next request takes nothing away. -/
theorem Keeps.of_others {post : Except Error α → σ → Prop} {p : Program α} {s t : σ}
    (htrans : ∀ {a b c}, w.others a b → w.others b c → w.others a c)
    (hpost : ∀ {r a b}, post r a → w.others a b → post r b)
    (h : p.Keeps w post s) (hst : w.others s t) : p.Keeps w post t := by
  cases p with
  | done r => exact hpost h hst
  | ask q next => exact fun t' ht' => h t' (htrans hst ht')

/-- The courses that a program may take in its surroundings, and how each of them ends. -/
inductive Course (w : Surroundings σ) : Program α → σ → Except Error α → σ → Prop
  | done {r : Except Error α} {s : σ} : Course w (.done r) s r s
  | ask {q : Request} {next : q.Reply → Program α} {s t u v : σ} {reply : q.Reply}
      {r : Except Error α} : w.others s t → w.answers t q reply u →
      Course w (next reply) u r v → Course w (.ask q next) s r v

/-- Every course ends as the program keeps to. -/
theorem Keeps.course {post : Except Error α → σ → Prop} {p : Program α} {s t : σ}
    {r : Except Error α} (h : p.Keeps w post s) (hcourse : p.Course w s r t) : post r t := by
  induction hcourse with
  | done => exact h
  | ask hothers hanswers _ ih => exact ih (h _ hothers _ _ hanswers).2

theorem Course.mono {w' : Surroundings σ} {p : Program α} {s t : σ} {r : Except Error α}
    (h : p.Course w s r t) (hothers : ∀ a b, w.others a b → w'.others a b)
    (hanswers : ∀ a q reply b, w.answers a q reply b → w'.answers a q reply b) :
    p.Course w' s r t := by
  induction h with
  | done => exact .done
  | ask ho ha _ ih => exact .ask (hothers _ _ ho) (hanswers _ _ _ _ ha) ih

theorem course_run {world : World σ} (hothers : ∀ a, w.others a a)
    (hanswers : ∀ a q, w.answers a q (world q a).1 (world q a).2) (p : Program α) (s : σ) :
    p.Course w s (p.run world s).1 (p.run world s).2 := by
  induction p generalizing s with
  | done r => exact .done
  | ask q next ih => exact .ask (hothers s) (hanswers s q) (ih _ _)

end Keeps

/-- Whether all requests of a program are of one kind, whatever it is answered. -/
def Only (kind : Request → Prop) : Program α → Prop
  | .done _ => True
  | .ask q next => kind q ∧ ∀ reply, (next reply).Only kind

section Only

variable {kind : Request → Prop}

theorem only_pure (a : α) : (pure a : Program α).Only kind := trivial

theorem only_fail (e : Error) : (fail e : Program α).Only kind := trivial

theorem only_store {call : StoreCall} (h : kind (.store call)) : (store call).Only kind :=
  ⟨h, fun _ => trivial⟩

theorem only_file {call : FileCall} {wrap : Files.IoError → Error} (h : kind (.file call)) :
    (file call wrap).Only kind := ⟨h, fun _ => trivial⟩

theorem only_tryFile {call : FileCall} (h : kind (.file call)) : (tryFile call).Only kind :=
  ⟨h, fun _ => trivial⟩

theorem only_note {notice : Notice} (h : kind (.note notice)) : (note notice).Only kind :=
  ⟨h, fun _ => trivial⟩

theorem Only.bind {p : Program α} {f : α → Program β} (hp : p.Only kind)
    (hf : ∀ a, (f a).Only kind) : (p >>= f).Only kind := by
  induction p with
  | done r =>
    cases r with
    | ok a => exact hf a
    | error e => trivial
  | ask q next ih => exact ⟨hp.1, fun reply => ih reply (hp.2 reply)⟩

theorem Only.attempt {p : Program α} (hp : p.Only kind) : p.attempt.Only kind := by
  induction p with
  | done r => trivial
  | ask q next ih => exact ⟨hp.1, fun reply => ih reply (hp.2 reply)⟩

theorem Only.mono {kind' : Request → Prop} {p : Program α} (hp : p.Only kind)
    (himp : ∀ q, kind q → kind' q) : p.Only kind' := by
  induction p with
  | done r => trivial
  | ask q next ih => exact ⟨himp q hp.1, fun reply => ih reply (hp.2 reply)⟩

/-- Requests of one kind carry an invariant to the end if each of them does and others do. -/
theorem Only.keeps {w : Surroundings σ} {inv : σ → Prop} {p : Program α} {s : σ}
    (hp : p.Only kind) (hs : inv s) (hothers : ∀ {a b}, inv a → w.others a b → inv b)
    (hstep : ∀ {a q reply b}, inv a → kind q → w.answers a q reply b →
      w.allowed a q reply b ∧ inv b) :
    p.Keeps w (fun _ => inv) s := by
  induction p generalizing s with
  | done r => exact hs
  | ask q next ih =>
    intro t ht reply u hu
    obtain ⟨allowed, hinv⟩ := hstep (hothers hs ht) hp.1 hu
    exact ⟨allowed, ih reply (hp.2 reply) hinv⟩

end Only

/-- A finding that others leave alone and that requests of one kind may carry along. -/
structure Carried (w : Surroundings σ) (kind : Request → Prop) (inv : σ → Prop) : Prop where
  kept : ∀ {s t}, inv s → w.others s t → inv t
  step : ∀ {s q reply t}, inv s → kind q → w.answers s q reply t →
    w.allowed s q reply t ∧ inv t

section Carried

variable {w : Surroundings σ} {kind : Request → Prop} {inv : σ → Prop} {s : σ}

theorem Carried.ask (h : Carried w kind inv) {q : Request} {next : q.Reply → Program α}
    {post : Except Error α → σ → Prop} (hs : inv s) (hq : kind q)
    (hnext : ∀ t reply u, inv t → w.answers t q reply u → inv u →
      (next reply).Keeps w post u) : (Program.ask q next).Keeps w post s := by
  intro t ht reply u hanswer
  have hinv := h.kept hs ht
  obtain ⟨hallowed, hlater⟩ := h.step hinv hq hanswer
  exact ⟨hallowed, hnext t reply u hinv hanswer hlater⟩

theorem Carried.only (h : Carried w kind inv) {p : Program α} (hp : p.Only kind) (hs : inv s) :
    p.Keeps w (fun _ => inv) s := hp.keeps hs h.kept h.step

end Carried

end Program

open Program

theorem keeps_withWriteLock {σ α : Type} {w : Surroundings σ} {inv : σ → Prop}
    {dir : Path} {action : Program α} {s : σ} (post : Except Error α → σ → Prop) (hs : inv s)
    (hothers : ∀ {a b}, inv a → w.others a b → inv b)
    (hpost : ∀ {r a b}, post r a → w.others a b → post r b)
    (hlock : ∀ {a q reply b}, inv a →
      (q = .file (.openLock (dir.join lockFileName)) ∨ ∃ inode, q = .file (.tryLock inode)) →
      w.answers a q reply b → w.allowed a q reply b ∧ inv b)
    (hrelease : ∀ {r a inode reply b}, post r a → w.answers a (.file (.release inode)) reply b →
      w.allowed a (.file (.release inode)) reply b ∧ post r b)
    (haction : ∀ t, inv t → action.Keeps w post t) :
    (withWriteLock dir action).Keeps w (fun r t => match r with
      | .ok (some a) => post (.ok a) t
      | .ok none => inv t
      | .error e => inv t ∨ post (.error e) t) s := by
  have taking : (tryWriteLock dir).Only fun q =>
      q = .file (.openLock (dir.join lockFileName)) ∨ ∃ inode, q = .file (.tryLock inode) :=
    .bind (only_file (.inl rfl)) fun inode => .bind (only_file (.inr ⟨inode, rfl⟩)) fun _ =>
      only_pure _
  refine keeps_bind.2 ((taking.keeps hs hothers hlock).mono ?_)
  rintro (e | taken) t ht
  · exact .inl ht
  · cases taken with
    | none => exact ht
    | some inode =>
      refine keeps_bind.2 (keeps_attempt.2 ((haction t ht).mono fun r u hu => ?_))
      intro v hv reply x hx
      obtain ⟨allowed, hpost'⟩ := hrelease (hpost hu hv) hx
      refine ⟨allowed, ?_⟩
      cases r with
      | ok a => exact hpost'
      | error e => exact .inr hpost'

end Relocation
