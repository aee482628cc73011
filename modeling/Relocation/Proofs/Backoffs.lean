import Mathlib.Data.List.DropRight
import Relocation.Proofs.Callbacks
import Relocation.Proofs.GivingWay

/-!
How often the controller has put a key off. One call ends the series of delays of its key, lengthens
it by one or leaves it alone (`Controller.Takes.backoff`), and no call changes that of another key.
So after any calls the controller remembers of each key how many of its errors were to be tried
again ever more slowly since its last success (`Controller.Serves.backoff`,
`Controller.backoffs_account`).
-/

set_option autoImplicit false

namespace Relocation

open Program

private theorem rtakeWhile_append {α : Type} {p : α → Bool} (before : List α) {after : List α}
    (h : ∀ a ∈ after, p a) : (before ++ after).rtakeWhile p = before.rtakeWhile p ++ after := by
  induction after using List.reverseRecOn with
  | nil => rw [List.append_nil, List.append_nil]
  | append_singleton front last ih =>
    have hfront := ih fun a ha => h a (List.mem_append_left _ ha)
    have hlast : p last := h last (List.mem_append_right _ (List.mem_singleton_self last))
    rw [← List.append_assoc, List.rtakeWhile_concat_pos p _ _ hlast, hfront, List.append_assoc]

private theorem mem_rtakeWhile_iff {α : Type} {p : α → Bool} {l : List α} {a : α} :
    a ∈ l.rtakeWhile p ↔
      ∃ before after, l = before ++ a :: after ∧ p a ∧ ∀ b ∈ after, p b := by
  constructor
  · intro ha
    obtain ⟨before, hsplit⟩ := List.rtakeWhile_suffix p l
    obtain ⟨front, after, htaken⟩ := List.append_of_mem ha
    have hall : ∀ b ∈ front ++ a :: after, p b := by
      intro b hb
      rw [← htaken] at hb
      exact List.mem_rtakeWhile_imp hb
    refine ⟨before ++ front, after, ?_, hall a (by simp), fun b hb => hall b (by simp [hb])⟩
    rw [List.append_assoc, ← htaken, hsplit]
  · rintro ⟨before, after, rfl, ha, hafter⟩
    rw [rtakeWhile_append before (List.forall_mem_cons.2 ⟨ha, hafter⟩)]
    exact List.mem_append_right _ List.mem_cons_self

theorem Error.action_ne_backoff_iff {e : Error} :
    e.action ≠ .backoff ↔ (∃ kind name, e = .conflict kind name) ∨ e.isRetryable = false := by
  cases e <;> simp [Error.action, Error.isRetryable]

namespace Controller

variable {σ : Type}

namespace Call

/-- Whether a call is a reconcile of a key that ended without an error. -/
def succeeds (k : ObjectKey) : Call σ → Bool
  | .reconciled key _ (.ok _) _ => key = k
  | _ => false

/-- Whether a call handles an error of a key that is to be tried again ever more slowly. -/
def putsOff (k : ObjectKey) : Call σ → Bool
  | .handled key e => key = k && e.action = .backoff
  | _ => false

theorem putsOff_iff {k : ObjectKey} {call : Call σ} :
    call.putsOff k ↔ ∃ e, call = .handled k e ∧ e.action = .backoff := by
  cases call with
  | reconciled key events result elapsed => simp [putsOff]
  | handled key e => simp [putsOff]

end Call

/-- How often a key was put off since its last success. -/
def timesPutOff (k : ObjectKey) (past : List (Call σ)) : Nat :=
  (past.rtakeWhile fun call => !call.succeeds k).countP (Call.putsOff k)

theorem timesPutOff_concat (k : ObjectKey) (past : List (Call σ)) (call : Call σ) :
    timesPutOff k (past ++ [call]) =
      if call.succeeds k then 0 else timesPutOff k past + if call.putsOff k then 1 else 0 := by
  cases hsucceeds : call.succeeds k with
  | true =>
    rw [timesPutOff, List.rtakeWhile_concat_neg _ _ _ (by simp [hsucceeds])]
    rfl
  | false =>
    rw [timesPutOff, List.rtakeWhile_concat_pos _ _ _ (by simp [hsucceeds]), Call.countP_concat]
    rfl

/-- A key was put off since its last success exactly when an error of it was handled after which no
reconcile of it succeeded. -/
theorem timesPutOff_pos_iff {k : ObjectKey} {past : List (Call σ)} :
    timesPutOff k past ≠ 0 ↔ ∃ before e after, past = before ++ .handled k e :: after ∧
      e.action = .backoff ∧ ∀ call ∈ after, call.succeeds k = false := by
  rw [timesPutOff, ← Nat.pos_iff_ne_zero, List.countP_pos_iff]
  constructor
  · rintro ⟨call, hmem, hputsOff⟩
    obtain ⟨before, after, hsplit, -, hafter⟩ := mem_rtakeWhile_iff.1 hmem
    obtain ⟨e, rfl, haction⟩ := Call.putsOff_iff.1 hputsOff
    exact ⟨before, e, after, hsplit, haction, fun call hcall => by simpa using hafter call hcall⟩
  · rintro ⟨before, e, after, hsplit, haction, hafter⟩
    refine ⟨.handled k e, mem_rtakeWhile_iff.2 ⟨before, after, hsplit, rfl, ?_⟩,
      Call.putsOff_iff.2 ⟨e, rfl, haction⟩⟩
    intro call hcall
    simp [hafter call hcall]

section Served

variable {ctx : ReconcileContext} {others : σ → σ → Prop} {world : World σ} {start c d : Controller}
  {past : List (Call σ)} {call : Call σ}

theorem backoffs_onError {e : Error} (h : e.action ≠ .backoff) (draw : DrawDelay)
    (key : ObjectKey) : (c.onError draw key e).controller.backoffs = c.backoffs := by
  unfold onError
  split
  · exact absurd ‹_› h
  · rfl
  · rfl

theorem backoffs_onError_backoff {e : Error} (h : e.action = .backoff) (draw : DrawDelay)
    (key : ObjectKey) : (c.onError draw key e).controller.backoffs =
      c.backoffs.insert key ((c.backoffs.get? key).getD 0 + 1) := by
  rw [onError, h]

/-- What a call makes of how often a key was put off. -/
theorem Takes.backoff (h : Takes ctx others world c call d) (k : ObjectKey) :
    d.backoffs.get? k =
      if call.succeeds k then none
      else if call.putsOff k then some ((c.backoffs.get? k).getD 0 + 1)
      else c.backoffs.get? k := by
  cases h with
  | @reconcile key s t events result elapsed course =>
    cases result with
    | error e => rfl
    | ok outcome =>
      show (c.backoffs.erase key).get? k = _
      by_cases hkey : key = k
      · rw [if_pos (by simp [Call.succeeds, hkey]), hkey, Table.get?_erase_self]
      · rw [if_neg (by simp [Call.succeeds, hkey]), Table.get?_erase_of_ne _ (Ne.symm hkey)]
        rfl
  | handle draw key e =>
    rw [if_neg (by simp [Call.succeeds])]
    by_cases haction : e.action = .backoff
    · rw [backoffs_onError_backoff haction]
      by_cases hkey : key = k
      · rw [if_pos (by simp [Call.putsOff, hkey, haction]), hkey, Table.get?_insert_self]
      · rw [if_neg (by simp [Call.putsOff, hkey]), Table.get?_insert_of_ne _ _ (Ne.symm hkey)]
    · rw [if_neg (by simp [Call.putsOff, haction]), backoffs_onError haction]

/-- After any calls the controller remembers of a key how often it was put off since its last
success, and nothing when it was not. -/
theorem Serves.backoff (h : Serves ctx others world start past c)
    (hstart : start.backoffs = .empty) (k : ObjectKey) :
    c.backoffs.get? k = if timesPutOff k past = 0 then none else some (timesPutOff k past) := by
  induction h with
  | start =>
    rw [hstart]
    rfl
  | @next past c d call _ htakes ih =>
    rw [htakes.backoff k, timesPutOff_concat, ih]
    cases call.succeeds k with
    | true => rfl
    | false =>
      cases call.putsOff k with
      | false => rfl
      | true =>
        by_cases hnever : timesPutOff k past = 0
        · simp [hnever]
        · simp [hnever]

/-- What a call does not do to the series of delays, and what a lock that another holds does. -/
structure KeepsBackoffs (c : Controller) (call : Call σ) (d : Controller) : Prop where
  unretried : ∀ key e, call = .handled key e →
    ((∃ kind name, e = .conflict kind name) ∨ e.isRetryable = false) → d.backoffs = c.backoffs
  failed : ∀ key events e elapsed, call = .reconciled key events (.error e) elapsed →
    d.backoffs = c.backoffs
  elsewhere : ∀ k, k ≠ call.key → d.backoffs.get? k = c.backoffs.get? k
  contended : ∀ key events result elapsed, call = .reconciled key events result elapsed →
    (∃ e ∈ events, e.Contended) →
      result = .ok (.requeueAfter lockRetryDelay) ∧ d.backoffs.get? key = none

theorem Takes.keepsBackoffs (h : Takes ctx others world c call d) : KeepsBackoffs c call d where
  unretried := by
    rintro key e rfl hnever
    cases h with
    | handle draw => exact backoffs_onError (Error.action_ne_backoff_iff.2 hnever) draw key
  failed := by
    rintro key events e elapsed rfl
    cases h with
    | reconcile => rfl
  elsewhere := by
    intro k hk
    rw [h.backoff k]
    cases call with
    | reconciled key events result elapsed =>
      have hkey : key ≠ k := Ne.symm hk
      cases result with
      | error e => rfl
      | ok outcome => rw [if_neg (by simp [Call.succeeds, hkey])]; rfl
    | handled key e =>
      have hkey : key ≠ k := Ne.symm hk
      rw [if_neg (by simp [Call.succeeds]), if_neg (by simp [Call.putsOff, hkey])]
  contended := by
    rintro key events result elapsed rfl hcontended
    cases h with
    | reconcile _ course =>
      have hresult := (reconcile_waits_iff course).2 hcontended
      refine ⟨hresult, ?_⟩
      rw [hresult]
      exact Table.get?_erase_self c.backoffs key

/-- The controller remembers a key exactly when one of its errors that are to be tried again ever
more slowly was handled and no reconcile of it has succeeded since; what it remembers is the number
of these errors. Other errors, failing reconciles and calls for other keys change nothing about it,
and a reconcile that met a lock that another held is a success. -/
theorem backoffs_account {m : Metrics} (hserves : Serves ctx others world { metrics := m } past c) :
    (∀ k, (c.backoffs.get? k).isSome ↔
      ∃ before e after, past = before ++ .handled k e :: after ∧ e.action = .backoff ∧
        ∀ call ∈ after, call.succeeds k = false) ∧
      (∀ k n, c.backoffs.get? k = some n → n = timesPutOff k past) ∧
      ∀ call d, Takes ctx others world c call d → KeepsBackoffs c call d := by
  have hbackoff := hserves.backoff rfl
  refine ⟨fun k => ?_, fun k n hn => ?_, fun call d htakes => htakes.keepsBackoffs⟩
  · rw [hbackoff, ← timesPutOff_pos_iff]
    by_cases hnever : timesPutOff k past = 0
    · simp [hnever]
    · simp [hnever]
  · rw [hbackoff] at hn
    by_cases hnever : timesPutOff k past = 0
    · simp [hnever] at hn
    · simpa [hnever, eq_comm] using hn

end Served

end Controller

open Controller Files Store

private def busyConfig : ClusterConfig where
  metadata := { name := some "site", space := some "edge", finalizers := some [ourFinalizer] }
  spec := { relocation := { domain := "example.com" } }

private def busyScenario : Scenario.State where
  context := sampleContext
  work := []
  clock := default
  draw := fun series _ => some series.initial
  viaApi := false
  memory := ({} : Memory).insertConfig busyConfig
  files := ((tryWriteLock (exportDirs sampleContext.dataDir ⟨"edge", "site"⟩).lock).run
    (besideFiles Memory.answer) ({}, (({} : FileSystem).answer
      (.makeDirs (exportDirs sampleContext.dataDir ⟨"edge", "site"⟩).lock)).2)).2.2

private def missing : Error := .notFound "Secret" "edge/pull"

private def erringScenario : Scenario.State :=
  ((busyScenario.errorPolicy ⟨"edge", "north"⟩ missing 2).2.errorPolicy ⟨"edge", "site"⟩
    missing 1).2

private def erringCalls : List (Call Scenario.State) :=
  [.handled ⟨"edge", "north"⟩ missing, .handled ⟨"edge", "north"⟩ missing,
    .handled ⟨"edge", "site"⟩ missing]

private def busyEnd : Scenario.State := (erringScenario.controllerReconcile ⟨"edge", "site"⟩).2

private def busyCall : Call Scenario.State :=
  .reconciled ⟨"edge", "site"⟩
    ((reconcile sampleContext ⟨"edge", "site"⟩).history Scenario.State.world erringScenario)
    (.ok (.requeueAfter lockRetryDelay)) 0

/-- A config that was put off twice, and one whose export had to wait for a lock after it was put
off. -/
theorem backoffs_account_busy :
    erringScenario.controller.backoffs.get? ⟨"edge", "site"⟩ = some 1 ∧
      busyEnd.controller.backoffs.get? ⟨"edge", "site"⟩ = none ∧
      busyEnd.controller.backoffs.get? ⟨"edge", "north"⟩ = some 2 := by
  have herring : Serves sampleContext Eq Scenario.State.world { metrics := {} } erringCalls
      erringScenario.controller :=
    (busyScenario.serves_errorPolicy sampleContext ⟨"edge", "north"⟩ missing 2).trans
      (Scenario.State.serves_errorPolicy _ sampleContext ⟨"edge", "site"⟩ missing 1)
  have hbusy : Takes sampleContext Eq Scenario.State.world erringScenario.controller busyCall
      busyEnd.controller := takes_run ⟨"edge", "site"⟩ 0 erringScenario
  have hcontended : ∃ e ∈ (reconcile sampleContext ⟨"edge", "site"⟩).history Scenario.State.world
      erringScenario, e.Contended := ⟨_, List.mem_of_getElem? (i := 4) rfl, rfl⟩
  obtain ⟨hremembers, hnumber, hkeeps⟩ := backoffs_account herring
  obtain ⟨hremembers', hnumber', -⟩ := backoffs_account (herring.next hbusy)
  obtain ⟨n, hsite⟩ := Option.isSome_iff_exists.1 ((hremembers ⟨"edge", "site"⟩).2
    ⟨erringCalls.take 2, missing, [], rfl, rfl, by decide⟩)
  obtain ⟨n', hnorth⟩ := Option.isSome_iff_exists.1 ((hremembers' ⟨"edge", "north"⟩).2
    ⟨erringCalls.take 1, missing, erringCalls.drop 2 ++ [busyCall], rfl, rfl, by decide⟩)
  have hn : n = 1 := hnumber _ n hsite
  have hn' : n' = 2 := hnumber' _ n' hnorth
  refine ⟨hn ▸ hsite, ?_, hn' ▸ hnorth⟩
  exact ((hkeeps busyCall busyEnd.controller hbusy).contended _ _ _ _ rfl hcontended).2

end Relocation
