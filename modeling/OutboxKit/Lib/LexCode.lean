import Mathlib

/-! Fixed-width codes keep the lexicographic order. A word is written symbol by
symbol, each symbol as a block of one width, with a separator after given
counts of symbols; words of one length then compare as their texts do. -/
namespace LexCode
variable {α β : Type*}

/-- The text of a word: the first `n` symbols, a separator, the next group, and
so on; what is left after the last count is written without a separator. -/
def grouped (enc : α → List β) (sep : β) : List Nat → List α → List β
  | [], l => l.flatMap enc
  | n::ns, l => (l.take n).flatMap enc++sep::grouped enc sep ns (l.drop n)

theorem mem_grouped {enc : α → List β} {sep c : β} {ns : List Nat} {l : List α}
    (h : c ∈ grouped enc sep ns l) : c = sep ∨ ∃ x ∈ l, c ∈ enc x := by
  induction ns generalizing l with
  | nil =>
    obtain ⟨x, hx, hc⟩ := List.mem_flatMap.mp h
    exact Or.inr ⟨x, hx, hc⟩
  | cons n ns ih =>
    rcases List.mem_append.mp h with h | h
    · obtain ⟨x, hx, hc⟩ := List.mem_flatMap.mp h
      exact Or.inr ⟨x, List.mem_of_mem_take hx, hc⟩
    · rcases List.mem_cons.mp h with rfl | h
      · exact Or.inl rfl
      · rcases ih h with h | ⟨x, hx, hc⟩
        · exact Or.inl h
        · exact Or.inr ⟨x, List.mem_of_mem_drop hx, hc⟩

section Order
variable [Ord α] [Std.LawfulEqOrd α] [LinearOrder β] {enc : α → List β} {sep : β}

theorem append_lt_append_of_lt {l l' : List β} (r r' : List β)
    (hlen : l.length = l'.length) (h : l < l') : l++r < l'++r' := by
  induction l generalizing l' with
  | nil =>
    cases l' with
    | nil => simp at h
    | cons y ys => simp at hlen
  | cons x xs ih =>
    cases l' with
    | nil => simp at hlen
    | cons y ys =>
      rw [List.cons_append, List.cons_append, List.cons_lt_cons_iff]
      rcases List.cons_lt_cons_iff.mp h with hxy | ⟨he, htail⟩
      · exact Or.inl hxy
      · exact Or.inr ⟨he, ih (by simpa using hlen) htail⟩

theorem compare_append {l l' : List α} (r r' : List α) (hlen : l.length = l'.length) :
    compare (l++r) (l'++r') = (compare l l').then (compare r r') := by
  induction l generalizing l' with
  | nil =>
    cases l' with
    | nil => simp
    | cons y ys => simp at hlen
  | cons x xs ih =>
    cases l' with
    | nil => simp at hlen
    | cons y ys =>
      rw [List.cons_append, List.cons_append, List.compare_cons_cons, List.compare_cons_cons,
        ih (by simpa using hlen)]
      cases compare x y <;> rfl

theorem flatMap_lt (w : Nat) (hwidth : ∀ x, (enc x).length = w)
    (hmono : ∀ x y, compare x y = .lt → enc x < enc y) {l l' : List α}
    (hlen : l.length = l'.length) (h : compare l l' = .lt) :
    l.flatMap enc < l'.flatMap enc := by
  induction l generalizing l' with
  | nil =>
    cases l' with
    | nil => simp at h
    | cons y ys => simp at hlen
  | cons x xs ih =>
    cases l' with
    | nil => simp at hlen
    | cons y ys =>
      rw [List.compare_cons_cons] at h
      rw [List.flatMap_cons, List.flatMap_cons]
      cases hxy : compare x y with
      | lt => exact append_lt_append_of_lt _ _ (by rw [hwidth, hwidth]) (hmono x y hxy)
      | eq =>
        rw [hxy] at h
        rw [Std.LawfulEqOrd.eq_of_compare hxy]
        exact List.append_left_lt (ih (by simpa using hlen) h)
      | gt => simp [hxy] at h

theorem grouped_lt (w : Nat) (hwidth : ∀ x, (enc x).length = w)
    (hmono : ∀ x y, compare x y = .lt → enc x < enc y) (ns : List Nat) {l l' : List α}
    (hlen : l.length = l'.length) (h : compare l l' = .lt) :
    grouped enc sep ns l < grouped enc sep ns l' := by
  induction ns generalizing l l' with
  | nil => exact flatMap_lt w hwidth hmono hlen h
  | cons n ns ih =>
    have htake : (l.take n).length = (l'.take n).length := by simp [hlen]
    have hsplit := compare_append (l.drop n) (l'.drop n) htake
    rw [List.take_append_drop, List.take_append_drop, h] at hsplit
    rw [grouped, grouped]
    cases hc : compare (l.take n) (l'.take n) with
    | lt =>
      exact append_lt_append_of_lt _ _ (by simp [hwidth, hlen])
        (flatMap_lt w hwidth hmono htake hc)
    | eq =>
      rw [hc] at hsplit
      rw [Std.LawfulEqOrd.eq_of_compare hc]
      refine List.append_left_lt (List.cons_lt_cons_iff.mpr (Or.inr ⟨rfl, ?_⟩))
      exact ih (by simp [hlen]) hsplit.symm
    | gt => simp [hc] at hsplit

end Order

/-- Dropping the separators leaves the plain code, if no block holds one. -/
theorem filter_grouped [DecidableEq β] {enc : α → List β} {sep : β}
    (hsep : ∀ x, sep ∉ enc x) (ns : List Nat) (l : List α) :
    (grouped enc sep ns l).filter (· ≠ sep) = l.flatMap enc := by
  have plain (l : List α) : (l.flatMap enc).filter (· ≠ sep) = l.flatMap enc := by
    rw [List.filter_eq_self]
    intro c hc
    obtain ⟨x, -, hx⟩ := List.mem_flatMap.mp hc
    exact decide_eq_true fun he => hsep x (he ▸ hx)
  induction ns generalizing l with
  | nil => exact plain l
  | cons n ns ih =>
    rw [grouped, List.filter_append, List.filter_cons_of_neg (by simp), ih, plain,
      ← List.flatMap_append, List.take_append_drop]

end LexCode
