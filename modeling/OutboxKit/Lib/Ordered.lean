import Mathlib

/-! Sorting by a key, as a query does it, and pairs ordered by a stamp first and
a tie-break second. -/
namespace Ordered
open Std
variable {α β κ : Type*}

section OrderBy
variable (cmp : κ → κ → Ordering) (key : α → κ)

def orderBy (l : List α) : List α := l.insertionSort fun a b => (cmp (key a) (key b)).isLE = true

theorem perm_orderBy (l : List α) : (orderBy cmp key l).Perm l := List.perm_insertionSort _ l

theorem mem_orderBy {l : List α} {a : α} : a ∈ orderBy cmp key l ↔ a ∈ l :=
  (perm_orderBy cmp key l).mem_iff

theorem orderBy_pairwise [TransCmp cmp] {l : List α}
    (hdistinct : l.Pairwise fun a b => cmp (key a) (key b) ≠ .eq) :
    (orderBy cmp key l).Pairwise fun a b => cmp (key a) (key b) = .lt := by
  have hsorted : (orderBy cmp key l).Pairwise fun a b => (cmp (key a) (key b)).isLE = true := by
    have : Std.Total fun a b : α => (cmp (key a) (key b)).isLE = true :=
      ⟨fun a b => by
        rcases hc : cmp (key a) (key b) with _ | _ | _
        · exact Or.inl rfl
        · exact Or.inl rfl
        · exact Or.inr (by rw [OrientedCmp.lt_of_gt hc]; rfl)⟩
    have : IsTrans α fun a b => (cmp (key a) (key b)).isLE = true :=
      ⟨fun _ _ _ => TransCmp.isLE_trans⟩
    exact List.pairwise_insertionSort _ l
  have hne := ((perm_orderBy cmp key l).pairwise_iff
    (R := fun a b => cmp (key a) (key b) ≠ .eq)
    (fun h => fun he => h (OrientedCmp.eq_symm he))).mpr hdistinct
  refine (hsorted.and hne).imp ?_
  rintro a b ⟨hle, hneq⟩
  cases hc : cmp (key a) (key b) with
  | lt => rfl
  | eq => exact absurd hc hneq
  | gt => rw [hc] at hle; cases hle

variable {cmp}

theorem eq_of_mem_iff [TransCmp cmp] {l l' : List α}
    (h : l.Pairwise fun a b => cmp (key a) (key b) = .lt)
    (h' : l'.Pairwise fun a b => cmp (key a) (key b) = .lt)
    (hmem : ∀ a, a ∈ l ↔ a ∈ l') : l = l' := by
  have : Std.Irrefl fun a b : α => cmp (key a) (key b) = .lt :=
    ⟨fun a ha => by rw [(ReflCmp.compare_self : cmp (key a) (key a) = .eq)] at ha; cases ha⟩
  have : Std.Antisymm fun a b : α => cmp (key a) (key b) = .lt :=
    ⟨fun a b hab hba => absurd hba (OrientedCmp.not_lt_of_lt hab)⟩
  exact h.eq_of_mem_iff h' hmem

theorem nodup_of_pairwise [TransCmp cmp] {l : List α}
    (h : l.Pairwise fun a b => cmp (key a) (key b) = .lt) : l.Nodup := by
  refine h.imp ?_
  rintro a b hab rfl
  rw [(ReflCmp.compare_self : cmp (key a) (key a) = .eq)] at hab
  cases hab

end OrderBy

theorem take_filterMap {γ : Type*} (f : α → Option β) (g : β → γ) (l : List α)
    (hsome : ∀ x ∈ l, (f x).isSome) (n : Nat) :
    (l.take n).filterMap (fun x => (f x).map g) = ((l.filterMap f).take n).map g := by
  induction l generalizing n with
  | nil => simp
  | cons x l ih =>
    obtain ⟨y, hy⟩ := Option.isSome_iff_exists.mp (hsome x List.mem_cons_self)
    cases n with
    | zero => simp
    | succ n =>
      rw [List.take_succ_cons, List.filterMap_cons_some hy, List.take_succ_cons, List.map_cons,
        List.filterMap_cons_some (by rw [hy]; rfl),
        ih (fun z hz => hsome z (List.mem_cons_of_mem _ hz))]

section Pairs
variable [Ord α] [Ord β]

def pairCmp (a b : α × β) : Ordering := (compare a.1 b.1).then (compare a.2 b.2)

instance [TransOrd α] [TransOrd β] : TransCmp (pairCmp : α × β → α × β → Ordering) :=
  inferInstanceAs (TransCmp (compareLex (compareOn Prod.fst) (compareOn Prod.snd)))

instance [LawfulEqOrd α] [LawfulEqOrd β] : LawfulEqCmp (pairCmp : α × β → α × β → Ordering) where
  compare_self {a} := by simp [pairCmp]
  eq_of_compare {a b} h := by
    obtain ⟨h1, h2⟩ := Ordering.then_eq_eq.mp h
    exact Prod.ext (LawfulEqOrd.eq_of_compare h1) (LawfulEqOrd.eq_of_compare h2)

end Pairs
end Ordered
