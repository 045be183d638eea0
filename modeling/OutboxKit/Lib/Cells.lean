import OutboxKit.Lib.Trace
import OutboxKit.Lib.Commit

/-! Machines that keep one cell for each key. A call answers from the cell of its own
key and changes that cell alone, so a run is made of separate runs on the cells:
calls on different keys commute, and two lists of calls that agree key by key end
in the same state. -/
namespace Cells
open Trace Commit
variable {σ α β κ ν : Type*} [DecidableEq κ]

/-- Both orders of two calls end in the same state, and each call answers alike in
both. -/
structure Commutes (call : α → σ → β × σ) (s : σ) (a b : α) : Prop where
  state : (call b (call a s).2).2 = (call a (call b s).2).2
  first : (call a (call b s).2).1 = (call a s).1
  second : (call b (call a s).2).1 = (call b s).1

/-- What `act` does to one cell is what a call does to the cell of its key, and nothing
else happens. Under the invariant `I` the cells make up the whole state. -/
structure Local (call : α → σ → β × σ) (key : α → κ) (I : σ → Prop) (cell : σ → κ → ν)
    (act : α → ν → β × ν) : Prop where
  keep : ∀ a s, I s → I (call a s).2
  ext : ∀ s t, I s → I t → cell s = cell t → s = t
  answer : ∀ a s, I s → (call a s).1 = (act a (cell s (key a))).1
  next : ∀ a s, I s →
    cell (call a s).2 = Function.update (cell s) (key a) (act a (cell s (key a))).2

def Reordered (key : α → κ) (as bs : List α) : Prop :=
  ∀ k, as.filter (fun a => key a = k) = bs.filter (fun a => key a = k)

namespace Local
variable {call : α → σ → β × σ} {key : α → κ} {I : σ → Prop} {cell : σ → κ → ν}
  {act : α → ν → β × ν}

theorem keep_after (h : Local call key I cell act) {s : σ} (hs : I s) (as : List α) :
    I (after call s as) := by
  induction as generalizing s with
  | nil => exact hs
  | cons a as ih => exact ih (h.keep a s hs)

theorem cell_other (h : Local call key I cell act) {s : σ} (hs : I s) {a : α} {k : κ}
    (hk : k ≠ key a) : cell (call a s).2 k = cell s k := by
  rw [h.next a s hs, Function.update_of_ne hk]

theorem commutes (h : Local call key I cell act) {s : σ} (hs : I s) {a b : α}
    (hab : key a ≠ key b) : Commutes call s a b where
  state := by
    have ha := h.keep a s hs
    have hb := h.keep b s hs
    apply h.ext _ _ (h.keep b _ ha) (h.keep a _ hb)
    rw [h.next b _ ha, h.next a _ hb, h.cell_other hs hab.symm, h.cell_other hs hab, h.next a s hs,
      h.next b s hs, Function.update_comm hab]
  first := by rw [h.answer a _ (h.keep b s hs), h.cell_other hs hab, h.answer a s hs]
  second := by rw [h.answer b _ (h.keep a s hs), h.cell_other hs hab.symm, h.answer b s hs]

theorem cell_after (h : Local call key I cell act) {s : σ} (hs : I s) (as : List α) (k : κ) :
    cell (after call s as) k = after act (cell s k) (as.filter fun a => key a = k) := by
  induction as generalizing s with
  | nil => rfl
  | cons a as ih =>
    rw [after, ih (h.keep a s hs)]
    by_cases hk : key a = k
    · subst hk
      rw [h.next a s hs, Function.update_self, List.filter_cons_of_pos (by simp), after]
    · rw [h.cell_other hs (Ne.symm hk), List.filter_cons_of_neg (by simpa using hk)]

theorem after_eq (h : Local call key I cell act) {s : σ} (hs : I s) {as bs : List α}
    (hab : Reordered key as bs) : after call s as = after call s bs := by
  apply h.ext _ _ (h.keep_after hs as) (h.keep_after hs bs)
  funext k
  rw [h.cell_after hs, h.cell_after hs, hab k]

end Local

theorem after_append (call : α → σ → β × σ) (s : σ) (as bs : List α) :
    after call s (as++bs) = after call (after call s as) bs := by
  induction as generalizing s with
  | nil => rfl
  | cons a as ih => exact ih _

/-- A call that commutes with each later one may as well come last. The invariant says in
which states it does. -/
theorem after_slide {call : α → σ → β × σ} {I : σ → Prop} {a : α} {as : List α}
    (hkeep : ∀ s, ∀ b ∈ as, I s → I (call b s).2)
    (hmove : ∀ s, ∀ b ∈ as, I s → (call b (call a s).2).2 = (call a (call b s).2).2)
    {s : σ} (hs : I s) : after call s (a::as) = (call a (after call s as)).2 := by
  induction as generalizing s with
  | nil => rfl
  | cons b as ih =>
    have hrest := ih (fun s c hc => hkeep s c (List.mem_cons_of_mem _ hc))
      (fun s c hc => hmove s c (List.mem_cons_of_mem _ hc)) (hkeep s b List.mem_cons_self hs)
    rw [after, after, after, hmove s b List.mem_cons_self hs]
    exact hrest

/-- The third list is made of the first two, each in its own order. -/
inductive Interleaves : List α → List α → List α → Prop
  | nil : Interleaves [] [] []
  | left {l r w : List α} (a : α) : Interleaves l r w → Interleaves (a::l) r (a::w)
  | right {l r w : List α} (a : α) : Interleaves l r w → Interleaves l (a::r) (a::w)

theorem Interleaves.filter {l r w : List α} (h : Interleaves l r w) (p : α → Bool) :
    Interleaves (l.filter p) (r.filter p) (w.filter p) := by
  induction h with
  | nil => exact .nil
  | left a _ ih =>
    cases hp : p a with
    | true => simpa [hp] using ih.left a
    | false => simpa [hp] using ih
  | right a _ ih =>
    cases hp : p a with
    | true => simpa [hp] using ih.right a
    | false => simpa [hp] using ih

theorem Interleaves.of_nil_right {l w : List α} (h : Interleaves l [] w) : w = l := by
  generalize hr : [] = r at h
  induction h with
  | nil => rfl
  | left a _ ih => rw [ih hr]
  | right => cases hr

theorem Interleaves.of_nil_left {r w : List α} (h : Interleaves [] r w) : w = r := by
  generalize hl : [] = l at h
  induction h with
  | nil => rfl
  | left => cases hl
  | right a _ ih => rw [ih hl]

/-- The tasks in any order, interleaved with the other calls in theirs. -/
def Schedule (tasks others w : List α) : Prop :=
  ∃ order : List α, order.Perm tasks ∧ Interleaves order others w

variable {key : α → κ}

theorem filter_key_eq {l : List α} {a : α} (hn : (l.map key).Nodup) (ha : a ∈ l) :
    l.filter (fun b => key b = key a) = [a] := by
  induction l with
  | nil => cases ha
  | cons b l ih =>
    obtain ⟨hb, hn⟩ := List.nodup_cons.mp hn
    cases ha with
    | head =>
      have hrest : l.filter (fun c => key c = key a) = [] := by
        refine List.filter_eq_nil_iff.mpr fun c hc => ?_
        intro he
        exact hb (List.mem_map.mpr ⟨c, hc, of_decide_eq_true he⟩)
      simp [hrest]
    | tail _ ha =>
      have hne : key b ≠ key a := fun he => hb (List.mem_map.mpr ⟨a, ha, he.symm⟩)
      simpa [hne] using ih hn ha

/-- Tasks on distinct keys, apart from the others' keys: any two schedules of them have
the same calls on each key. -/
theorem Schedule.reordered {tasks others w w' : List α} (hn : (tasks.map key).Nodup)
    (hd : ∀ a ∈ tasks, ∀ b ∈ others, key a ≠ key b)
    (h : Schedule tasks others w) (h' : Schedule tasks others w') : Reordered key w w' := by
  have project : ∀ {w : List α}, Schedule tasks others w → ∀ k,
      w.filter (fun a => key a = k) = tasks.filter (fun a => key a = k) ++
        others.filter (fun a => key a = k) := by
    intro w hw k
    obtain ⟨order, hperm, hw⟩ := hw
    have hw := hw.filter fun a => key a = k
    by_cases hk : ∃ a ∈ tasks, key a = k
    · obtain ⟨a, ha, rfl⟩ := hk
      have hothers : others.filter (fun b => key b = key a) = [] := by
        refine List.filter_eq_nil_iff.mpr fun b hb he => ?_
        exact hd a ha b hb (of_decide_eq_true he).symm
      rw [hothers] at hw ⊢
      rw [hw.of_nil_right, List.append_nil, filter_key_eq hn ha,
        filter_key_eq ((hperm.map key).nodup_iff.mpr hn) (hperm.mem_iff.mpr ha)]
    · have htasks : ∀ {l : List α}, l ⊆ tasks → l.filter (fun b => key b = k) = [] := by
        intro l hl
        refine List.filter_eq_nil_iff.mpr fun b hb he => ?_
        exact hk ⟨b, hl hb, of_decide_eq_true he⟩
      rw [htasks hperm.subset] at hw
      rw [hw.of_nil_left, htasks (fun _ h => h), List.nil_append]
  intro k
  rw [project h, project h']

section Statements
variable {δ ε : Type*}

/-- A statement that works on one cell. -/
def LocalStatement (cell : δ → κ → ν) (key : κ) (stmt : Statement δ ε) (onCell : Statement ν ε) :
    Prop :=
  ∀ d, match onCell (cell d key) with
    | .error err => stmt d = .error err
    | .ok v => ∃ d', stmt d = .ok d' ∧ cell d' = Function.update (cell d) key v

theorem autocommit_local {cell : δ → κ → ν} {key : κ} {stmts : List (Statement δ ε)}
    {onCells : List (Statement ν ε)} (h : List.Forall₂ (LocalStatement cell key) stmts onCells)
    (fault : Fault ε) (d : δ) :
    (autocommit stmts fault d).1 = (autocommit onCells fault (cell d key)).1 ∧
      cell (autocommit stmts fault d).2 =
        Function.update (cell d) key (autocommit onCells fault (cell d key)).2 := by
  induction h generalizing fault d with
  | nil => rcases fault with _ | _ | ⟨_ | k⟩ <;> simp [autocommit]
  | @cons stmt onCell rest onRest hstmt _ ih =>
    have hstmt := hstmt d
    rcases fault with _ | ⟨_ | k, err⟩ | ⟨_ | k⟩
    case refuse.zero => simp [autocommit]
    case crash.zero => simp [autocommit]
    all_goals
      simp only [autocommit]
      cases hon : onCell (cell d key) with
      | error err =>
        rw [hon] at hstmt
        simp [hstmt]
      | ok v =>
        rw [hon] at hstmt
        obtain ⟨d', hd, hcell⟩ := hstmt
        have hrest := fun fault => ih fault d'
        simp only [hcell, Function.update_self, Function.update_idem] at hrest
        simpa only [hd] using hrest _

end Statements

theorem sum_update_add [Fintype κ] (f : κ → ℕ) (k : κ) (x : ℕ) :
    ∑ j, Function.update f k x j+f k = ∑ j, f j+x := by
  have hrest : ∑ j ∈ Finset.univ.erase k, Function.update f k x j =
      ∑ j ∈ Finset.univ.erase k, f j :=
    Finset.sum_congr rfl fun j hj => Function.update_of_ne (Finset.ne_of_mem_erase hj) _ _
  rw [← Finset.add_sum_erase _ _ (Finset.mem_univ k),
    ← Finset.add_sum_erase _ f (Finset.mem_univ k), hrest, Function.update_self]
  omega

end Cells
