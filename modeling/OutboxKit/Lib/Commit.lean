import Mathlib

/-! Database calls as sequences of statements, and what a fault leaves of them.
A statement takes effect as a whole or not at all. Outside a transaction each
one commits by itself; inside, nothing shows before the commit. -/
namespace Commit
variable {δ ε : Type*}

/-- A statement on a database `δ`; it may be refused with an error `ε`. -/
abbrev Statement (δ ε : Type*) := δ → Except ε δ

/-- What strikes a call: its `k`-th statement (from zero) is refused without
effect, or the process dies once `k` statements have completed. -/
inductive Fault (ε : Type*) where
  | none
  | refuse (k : Nat) (err : ε)
  | crash (k : Nat)

inductive Outcome (ε : Type*) where
  | returned (result : Except ε Unit)
  | crashed

def Outcome.mapError {ε' : Type*} (f : ε → ε') : Outcome ε → Outcome ε'
  | .returned result => .returned (result.mapError f)
  | .crashed => .crashed

/-- The fault as the rest of the call sees it, one statement later. -/
def Fault.next : Fault ε → Fault ε
  | .refuse (k+1) err => .refuse k err
  | .crash (k+1) => .crash k
  | _ => .none

/-- Each statement commits by itself; the first refusal ends the call. -/
def autocommit : List (Statement δ ε) → Fault ε → δ → Outcome ε × δ
  | _, .crash 0, d => (.crashed, d)
  | [], _, d => (.returned (.ok ()), d)
  | _::_, .refuse 0 err, d => (.returned (.error err), d)
  | stmt::rest, fault, d =>
    match stmt d with
    | .error err => (.returned (.error err), d)
    | .ok d' => autocommit rest fault.next d'

/-- All statements, then the commit, which a fault may also strike; short of it
the database is as it was. -/
def transaction (stmts : List (Statement δ ε)) (fault : Fault ε) (d : δ) : Outcome ε × δ :=
  match autocommit stmts fault d with
  | (.returned (.ok ()), d') =>
    match Fault.next^[stmts.length] fault with
    | .refuse 0 err => (.returned (.error err), d)
    | .crash 1 => (.crashed, d')
    | _ => (.returned (.ok ()), d')
  | (outcome, _) => (outcome, d)

def exec : List (Statement δ ε) → δ → Except ε Unit × δ
  | [], d => (.ok (), d)
  | stmt::rest, d =>
    match stmt d with
    | .error err => (.error err, d)
    | .ok d' => exec rest d'

def atomic (stmts : List (Statement δ ε)) (d : δ) : Except ε Unit × δ :=
  match exec stmts d with
  | (.ok (), d') => (.ok (), d')
  | (.error err, _) => (.error err, d)

theorem autocommit_none (stmts : List (Statement δ ε)) (d : δ) :
    autocommit stmts .none d = (.returned (exec stmts d).1, (exec stmts d).2) := by
  induction stmts generalizing d with
  | nil => rfl
  | cons stmt rest ih =>
    simp only [autocommit, exec, Fault.next]
    cases stmt d with
    | error err => rfl
    | ok d' => exact ih d'

theorem autocommit_invariant {I : δ → Prop} {stmts : List (Statement δ ε)}
    (h : ∀ stmt ∈ stmts, ∀ d d', I d → stmt d = .ok d' → I d') (fault : Fault ε) {d : δ}
    (hd : I d) : I (autocommit stmts fault d).2 := by
  induction stmts generalizing fault d with
  | nil => rcases fault with _ | _ | ⟨_ | k⟩ <;> exact hd
  | cons stmt rest ih =>
    have hrest := ih fun stmt hstmt => h stmt (List.mem_cons_of_mem _ hstmt)
    rcases fault with _ | ⟨_ | k, err⟩ | ⟨_ | k⟩
    case refuse.zero => exact hd
    case crash.zero => exact hd
    all_goals
      simp only [autocommit]
      cases hs : stmt d with
      | error err => exact hd
      | ok d' => exact hrest _ (h stmt List.mem_cons_self d d' hd hs)

theorem autocommit_ok {stmts : List (Statement δ ε)} {fault : Fault ε} {d d' : δ}
    (h : autocommit stmts fault d = (.returned (.ok ()), d')) :
    autocommit stmts .none d = (.returned (.ok ()), d') := by
  induction stmts generalizing fault d with
  | nil =>
    rcases fault with _ | _ | ⟨_ | k⟩ <;> cases h
    all_goals rfl
  | cons stmt rest ih =>
    rcases fault with _ | ⟨_ | k, err⟩ | ⟨_ | k⟩
    case refuse.zero => cases h
    case crash.zero => cases h
    all_goals
      simp only [autocommit] at h
      cases hs : stmt d with
      | error err => simp [hs] at h
      | ok u =>
        simp only [hs] at h
        simp only [autocommit, hs, Fault.next]
        exact ih h

/-- A transaction is all or nothing, and an error means nothing. -/
theorem transaction_cases (stmts : List (Statement δ ε)) (fault : Fault ε) (d : δ) :
    ((transaction stmts fault d).2 = d ∨ (transaction stmts fault d).2 = (atomic stmts d).2) ∧
    (∀ err, (transaction stmts fault d).1 = .returned (.error err) →
      (transaction stmts fault d).2 = d) := by
  unfold transaction
  rcases h : autocommit stmts fault d with ⟨outcome, d'⟩
  rcases outcome with ⟨_ | _⟩ | _
  · simp
  · have hall := autocommit_ok h
    rw [autocommit_none, Prod.mk.injEq, Outcome.returned.injEq] at hall
    have hatomic : atomic stmts d = (.ok (), d') := by
      have hexec : exec stmts d = (.ok (), d') := Prod.ext hall.1 hall.2
      rw [atomic, hexec]
    rw [hatomic]
    simp only
    split <;> simp
  · simp

end Commit
