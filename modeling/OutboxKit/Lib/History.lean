import OutboxKit.Lib.Trace

/-! What a run leaves behind. An invariant may speak of the labels taken so far, or of
a record folded along them, in which each label is noted with the state it was
taken from; and a measure that every admitted step lowers bounds a run's length. -/
namespace Trace.System
variable {σ α κ : Type*} {M : System σ α}

section Run
variable {ok : σ → α → Prop} [∀ s a, Decidable (ok s a)] {s t : σ} {a : α} {as bs : List α}

theorem run_cons_eq_some : M.run ok s (a::as) = some t ↔
    ok s a ∧ ∃ u, M.step s a = some u ∧ M.run ok u as = some t := by
  rw [run]
  by_cases hok : ok s a
  · rw [if_pos hok, Option.bind_eq_some_iff]
    simp [hok]
  · simp [hok]

theorem run_append : M.run ok s (as++bs) = (M.run ok s as).bind fun u => M.run ok u bs := by
  induction as generalizing s with
  | nil => rfl
  | cons a as ih =>
    rw [List.cons_append, run, run]
    split
    · cases M.step s a with
      | none => rfl
      | some u => exact ih
    · rfl

theorem run_append_eq_some : M.run ok s (as++bs) = some t ↔
    ∃ u, M.run ok s as = some u ∧ M.run ok u bs = some t := by
  rw [run_append, Option.bind_eq_some_iff]

theorem run_mono {ok' : σ → α → Prop} [∀ s a, Decidable (ok' s a)] (hle : ∀ s a, ok s a → ok' s a)
    (h : M.run ok s as = some t) : M.run ok' s as = some t := by
  induction as generalizing s with
  | nil => exact h
  | cons a as ih =>
    obtain ⟨hok, u, hu, hrest⟩ := run_cons_eq_some.mp h
    exact run_cons_eq_some.mpr ⟨hle s a hok, u, hu, ih hrest⟩

theorem run_map {τ : Type*} {N : System τ α} {ok' : τ → α → Prop} [∀ t a, Decidable (ok' t a)]
    {f : σ → τ} (hok : ∀ s a, ok' (f s) a ↔ ok s a)
    (hstep : ∀ s a, N.step (f s) a = (M.step s a).map f) (s : σ) (as : List α) :
    N.run ok' (f s) as = (M.run ok s as).map f := by
  induction as generalizing s with
  | nil => rfl
  | cons a as ih =>
    rw [run, run, hstep, if_congr (hok s a) rfl rfl]
    split
    · cases M.step s a with
      | none => rfl
      | some u => exact ih u
    · rfl

/-- The invariant rule, for an invariant that speaks of the labels taken so far. -/
theorem run_history {I : List α → σ → Prop} (h : M.run ok s as = some t) (hs : I [] s)
    (hstep : ∀ past u a v, I past u → ok u a → M.step u a = some v → I (past++[a]) v) : I as t := by
  induction as using List.reverseRecOn generalizing t with
  | nil =>
    cases h
    exact hs
  | append_singleton as a ih =>
    obtain ⟨u, hu, hlast⟩ := run_append_eq_some.mp h
    obtain ⟨hok, v, hv, hend⟩ := run_cons_eq_some.mp hlast
    cases hend
    exact hstep as u a _ (ih hu) hok hv

/-- The record of a run: `note` enters each label with the state it is taken from. -/
def record (M : System σ α) (note : σ → α → κ → κ) : σ → List α → κ → κ
  | _, [], k => k
  | s, a::as, k =>
    match M.step s a with
    | some t => record M note t as (note s a k)
    | none => k

theorem run_record {note : σ → α → κ → κ} {I : κ → σ → Prop} {k : κ} (h : M.run ok s as = some t)
    (hs : I k s) (hstep : ∀ k u a v, I k u → ok u a → M.step u a = some v → I (note u a k) v) :
    I (M.record note s as k) t := by
  induction as generalizing s k with
  | nil =>
    cases h
    exact hs
  | cons a as ih =>
    obtain ⟨hok, u, hu, hrest⟩ := run_cons_eq_some.mp h
    rw [record, hu]
    exact ih hrest (hstep k s a u hs hok hu)

/-- A run of steps that lower a measure is no longer than the measure it starts from. -/
theorem length_le_of_measure {μ : σ → ℕ} (h : M.run ok s as = some t)
    (hstep : ∀ u a v, ok u a → M.step u a = some v → μ v < μ u) : as.length+μ t ≤ μ s := by
  induction as generalizing s with
  | nil =>
    cases h
    simp
  | cons a as ih =>
    obtain ⟨hok, u, hu, hrest⟩ := run_cons_eq_some.mp h
    have hlt := hstep s a u hok hu
    have hle := ih hrest
    rw [List.length_cons]
    omega

end Run

theorem rel_mono {τ : Type*} {R Q : σ → τ → Prop} {x : Option σ} {y : Option τ}
    (h : Option.Rel R x y) (hle : ∀ s t, R s t → Q s t) : Option.Rel Q x y := by
  cases h with
  | some hst => exact .some (hle _ _ hst)
  | none => exact .none

/-- The simulation rule for two systems under the same labels: related states step alike,
so runs of one list of labels end in related states or are both refused. -/
theorem run_rel {τ : Type*} {N : System τ α} {ok : α → Prop} [DecidablePred ok]
    {R : List α → σ → τ → Prop} {as past all : List α} (hall : past++as = all)
    (hstep : ∀ past a s t, past++[a] <+: all → R past s t → ok a →
      Option.Rel (R (past++[a])) (M.step s a) (N.step t a)) {s : σ} {t : τ} (h : R past s t) :
    Option.Rel (R all) (M.run (fun _ => ok) s as) (N.run (fun _ => ok) t as) := by
  induction as generalizing past s t with
  | nil =>
    rw [← hall, List.append_nil]
    exact .some h
  | cons a as ih =>
    rw [run, run]
    by_cases hok : ok a
    · rw [List.append_cons] at hall
      have hrel := hstep past a s t ⟨as, hall⟩ h hok
      rw [if_pos hok, if_pos hok]
      cases hs : M.step s a with
      | none =>
        rw [hs] at hrel
        cases ht : N.step t a with
        | none => exact .none
        | some v =>
          rw [ht] at hrel
          cases hrel
      | some u =>
        rw [hs] at hrel
        cases ht : N.step t a with
        | none =>
          rw [ht] at hrel
          cases hrel
        | some v =>
          rw [ht] at hrel
          cases hrel with
          | some huv => exact ih hall huv
    · rw [if_neg hok, if_neg hok]
      exact .none

end Trace.System
