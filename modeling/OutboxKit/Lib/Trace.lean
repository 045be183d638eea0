import Mathlib

/-! Labelled systems with an executable step, the runs they make, and the proof
rules used on them: an invariant kept by every admitted step holds along every
run, and two answering machines tied by a simulation answer alike. -/
namespace Trace
variable {σ τ α β : Type*}

/-- A step may be refused: `none` means the label is not enabled there. -/
structure System (σ α : Type*) where
  start : σ
  step : σ → α → Option σ

namespace System
variable (M : System σ α)

def Step (ok : σ → α → Prop) (s t : σ) : Prop := ∃ a, ok s a ∧ M.step s a = some t

def Reach (ok : σ → α → Prop) : σ → σ → Prop := Relation.ReflTransGen (M.Step ok)

def Reachable (ok : σ → α → Prop) (t : σ) : Prop := M.Reach ok M.start t

/-- The run of a given list of labels, as far as each is admitted and enabled. -/
def run (ok : σ → α → Prop) [∀ s a, Decidable (ok s a)] : σ → List α → Option σ
  | s, [] => some s
  | s, a::as => if ok s a then (M.step s a).bind fun t => run ok t as else none

variable {M}

theorem Reach.invariant {ok : σ → α → Prop} {I : σ → Prop} {s t : σ}
    (hstep : ∀ s a t, I s → ok s a → M.step s a = some t → I t)
    (h : M.Reach ok s t) (hs : I s) : I t := by
  induction h with
  | refl => exact hs
  | tail _ hst ih =>
    obtain ⟨a, hok, hst⟩ := hst
    exact hstep _ a _ ih hok hst

theorem Reachable.invariant {ok : σ → α → Prop} {I : σ → Prop} {t : σ}
    (hstart : I M.start) (hstep : ∀ s a t, I s → ok s a → M.step s a = some t → I t)
    (h : M.Reachable ok t) : I t :=
  Reach.invariant hstep h hstart

theorem reach_of_run {ok : σ → α → Prop} [∀ s a, Decidable (ok s a)] {s t : σ} (as : List α)
    (h : M.run ok s as = some t) : M.Reach ok s t := by
  induction as generalizing s with
  | nil =>
    rw [run, Option.some.injEq] at h
    exact h ▸ .refl
  | cons a as ih =>
    rw [run] at h
    split at h
    · rename_i hok
      obtain ⟨u, hu, hrest⟩ := Option.bind_eq_some_iff.mp h
      exact .head ⟨a, hok, hu⟩ (ih hrest)
    · cases h

theorem exists_reach {ok : σ → α → Prop} [∀ s a, Decidable (ok s a)] {s : σ} {as : List α}
    {p : σ → Prop} [DecidablePred p] (h : (M.run ok s as).any (fun t => p t) = true) :
    ∃ t, M.Reach ok s t ∧ p t := by
  cases ht : M.run ok s as with
  | none => simp [ht] at h
  | some t => exact ⟨t, reach_of_run as ht, by simpa [ht] using h⟩

end System

def answers (call : α → σ → β × σ) : σ → List α → List β
  | _, [] => []
  | s, a::as => (call a s).1::answers call (call a s).2 as

def after (call : α → σ → β × σ) : σ → List α → σ
  | s, [] => s
  | s, a::as => after call (call a s).2 as

theorem after_concat (call : α → σ → β × σ) (s : σ) (as : List α) (a : α) :
    after call s (as++[a]) = (call a (after call s as)).2 := by
  induction as generalizing s with
  | nil => rfl
  | cons b as ih => exact ih _

theorem answers_concat (call : α → σ → β × σ) (s : σ) (as : List α) (a : α) :
    answers call s (as++[a]) = answers call s as++[(call a (after call s as)).1] := by
  induction as generalizing s with
  | nil => rfl
  | cons b as ih => exact congrArg _ (ih _)

def transcript (call : α → σ → β × σ) : σ → List α → List (α × β)
  | _, [] => []
  | s, a::as => (a, (call a s).1)::transcript call (call a s).2 as

theorem transcript_concat (call : α → σ → β × σ) (s : σ) (as : List α) (a : α) :
    transcript call s (as++[a]) = transcript call s as++[(a, (call a (after call s as)).1)] := by
  induction as generalizing s with
  | nil => rfl
  | cons b as ih => exact congrArg _ (ih _)

theorem answers_split {call : α → σ → β × σ} {s : σ} {as : List α} {pre : List β} {b : β}
    {post : List β} (h : answers call s as = pre++b::post) :
    ∃ as' a rest, as = as'++a::rest ∧ answers call s as' = pre ∧
      (call a (after call s as')).1 = b := by
  induction pre generalizing s as with
  | nil =>
    cases as with
    | nil => cases h
    | cons a as => exact ⟨[], a, as, rfl, rfl, (List.cons.inj h).1⟩
  | cons x pre ih =>
    cases as with
    | nil => cases h
    | cons a as =>
      obtain ⟨hx, hrest⟩ := List.cons.inj h
      obtain ⟨as', a', rest, rfl, hans, hb⟩ := ih hrest
      exact ⟨a::as', a', rest, rfl, by rw [answers, hx, hans], hb⟩

theorem after_invariant {call : α → σ → β × σ} {I : List α → σ → Prop} {s : σ} (hs : I [] s)
    (hstep : ∀ past a, I past (after call s past) →
      I (past++[a]) (call a (after call s past)).2) (as : List α) : I as (after call s as) := by
  induction as using List.reverseRecOn with
  | nil => exact hs
  | append_singleton as a ih =>
    rw [after_concat]
    exact hstep as a ih

/-- The simulation rule. The relation may speak of the calls already made, so
a call's precondition can depend on its history. -/
theorem answers_eq {call : α → σ → β × σ} {call' : α → τ → β × τ}
    {R : List α → σ → τ → Prop} {ok : List α → α → Prop}
    (hsim : ∀ past a s t, R past s t → ok past a →
      (call a s).1 = (call' a t).1 ∧ R (past++[a]) (call a s).2 (call' a t).2) :
    ∀ (as past : List α) (s : σ) (t : τ), R past s t →
      (∀ pre a post, as = pre++a::post → ok (past++pre) a) →
      answers call s as = answers call' t as := by
  intro as
  induction as with
  | nil => intros; rfl
  | cons a as ih =>
    intro past s t hR hok
    obtain ⟨hans, hnext⟩ := hsim past a s t hR (by simpa using hok [] a as rfl)
    have hrest := ih (past++[a]) _ _ hnext (by
      intro pre b post he
      have := hok (a::pre) b post (by simp [he])
      simpa using this)
    simp only [answers, hans, hrest]

end Trace
