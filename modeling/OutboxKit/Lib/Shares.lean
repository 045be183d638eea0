import OutboxKit.Lib.Ordered

/-! A list shared out. Readers take turns; each takes as many of the first items as it
asks for and passes over what the others hold. Their shares, put one after the other,
are what one reader would have taken that asks for all of it. -/
namespace Shares
variable {α κ : Type*} [DecidableEq κ] (key : α → κ)

def share (l : List α) (held : List κ) (n : ℕ) : List α :=
  (l.filter fun x => !held.contains (key x)).take n

/-- The shares of readers that ask for `ns` items in turn. -/
def shares (l : List α) : List κ → List ℕ → List (List α)
  | _, [] => []
  | held, n::ns => share key l held n::shares l ((share key l held n).map key++held) ns

variable {key} {l : List α}

theorem filter_not_mem_take (h : (l.map key).Nodup) (n : ℕ) :
    (l.filter fun x => !((l.take n).map key).contains (key x)) = l.drop n := by
  induction l generalizing n with
  | nil => simp
  | cons x l ih =>
    rw [List.map_cons, List.nodup_cons] at h
    obtain ⟨hx, hl⟩ := h
    cases n with
    | zero => simp
    | succ n =>
      rw [List.take_succ_cons, List.map_cons, List.drop_succ_cons, ← ih hl n,
        List.filter_cons_of_neg (by simp)]
      refine List.filter_congr fun y hy => ?_
      have hne : key y ≠ key x := fun he => hx (he ▸ List.mem_map_of_mem hy)
      simp [hne]

/-- Who comes next finds the rest of what was free. -/
theorem free_after (h : (l.map key).Nodup) (held : List κ) (n : ℕ) :
    (l.filter fun x => !((share key l held n).map key++held).contains (key x)) =
      (l.filter fun x => !held.contains (key x)).drop n := by
  have hnodup : ((l.filter fun x => !held.contains (key x)).map key).Nodup :=
    h.sublist (List.filter_sublist.map key)
  rw [← filter_not_mem_take hnodup n, List.filter_filter]
  refine List.filter_congr fun x _ => ?_
  simp [share, Bool.not_or]

theorem flatten_shares (h : (l.map key).Nodup) (held : List κ) (ns : List ℕ) :
    (shares key l held ns).flatten = share key l held ns.sum := by
  induction ns generalizing held with
  | nil => simp [shares, share]
  | cons n ns ih =>
    rw [shares, List.flatten_cons, ih, List.sum_cons]
    calc
      share key l held n++share key l ((share key l held n).map key++held) ns.sum
        = share key l held n++((l.filter fun x => !held.contains (key x)).drop n).take ns.sum := by
          rw [← free_after h]
          rfl
      _ = share key l held (n+ns.sum) := List.take_add.symm

end Shares
