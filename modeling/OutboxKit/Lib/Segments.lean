import Mathlib

/-! Self-synchronizing codes: every code word opens with a lead symbol and goes on
with symbols that are none, so the word boundaries of a stream show in the symbols
themselves, and none is further off than the longest word. -/
namespace Segments
variable {α β : Type*}

def Synchronizing (enc : α → List β) (lead : β → Bool) : Prop :=
  ∀ a, ∃ b bs, enc a = b::bs ∧ lead b = true ∧ ∀ x ∈ bs, lead x = false

/-- An end of the stream, or a position that holds a lead symbol. -/
def boundary (lead : β → Bool) (stream : List β) (i : ℕ) : Bool :=
  i = 0 || i = stream.length || stream[i]?.any lead

theorem boundary_zero (lead : β → Bool) (stream : List β) : boundary lead stream 0 = true := by
  simp [boundary]

section Stream
variable {enc : α → List β} {lead : β → Bool} (h : Synchronizing enc lead)
include h

theorem length_pos (a : α) : 0 < (enc a).length := by
  obtain ⟨b, bs, heq, -, -⟩ := h a
  rw [heq]
  exact Nat.succ_pos _

theorem not_boundary_word (a : α) (rest : List β) {i : ℕ} (hpos : 0 < i)
    (hlt : i < (enc a).length) : boundary lead (enc a++rest) i = false := by
  obtain ⟨b, bs, heq, -, htail⟩ := h a
  rw [heq] at hlt ⊢
  have hmem : (b::bs)[i] ∈ bs := by
    cases i with
    | zero => omega
    | succ i => exact List.getElem_mem _
  have hany : (b::bs++rest)[i]?.any lead = false := by
    rw [List.getElem?_append_left hlt, List.getElem?_eq_getElem hlt]
    exact htail _ hmem
  have hend : i ≠ (b::bs++rest).length := by
    rw [List.length_append]
    omega
  rw [boundary, hany, decide_eq_false hpos.ne', decide_eq_false hend]
  rfl

theorem boundary_add (a : α) (l : List α) (i : ℕ) :
    boundary lead (enc a++l.flatMap enc) ((enc a).length+i) =
      boundary lead (l.flatMap enc) i := by
  have hpos := length_pos h a
  have hget : (enc a++l.flatMap enc)[(enc a).length+i]? = (l.flatMap enc)[i]? := by
    rw [List.getElem?_append_right (by omega)]
    congr 1
    omega
  by_cases hi : i = 0
  · rw [hi, boundary_zero]
    cases l with
    | nil => simp [boundary]
    | cons c l =>
      obtain ⟨b, bs, heq, hlead, -⟩ := h c
      rw [hi, List.flatMap_cons, heq] at hget
      rw [boundary, List.flatMap_cons, heq, hget]
      simp [hlead]
  · simp only [boundary, hget, List.length_append]
    simp [hi, hpos.ne']

/-- The boundaries of a stream are the places where it splits into whole words. -/
theorem boundary_iff (l : List α) (i : ℕ) :
    boundary lead (l.flatMap enc) i = true ↔ ∃ a b, l = a++b ∧ (a.flatMap enc).length = i := by
  induction l generalizing i with
  | nil => simp [boundary, eq_comm]
  | cons c l ih =>
    rw [List.flatMap_cons]
    by_cases hin : i < (enc c).length
    · by_cases hi : i = 0
      · rw [hi, boundary_zero]
        exact ⟨fun _ => ⟨[], c::l, rfl, rfl⟩, fun _ => rfl⟩
      · rw [not_boundary_word h c _ (by omega) hin]
        constructor
        · intro hfalse
          cases hfalse
        · intro hsplit
          obtain ⟨a, b, heq, hlen⟩ := hsplit
          cases a with
          | nil => exact absurd hlen.symm hi
          | cons d a =>
            obtain ⟨rfl, -⟩ := List.cons.inj heq
            rw [List.flatMap_cons, List.length_append] at hlen
            omega
    · obtain ⟨j, rfl⟩ := Nat.exists_eq_add_of_le (Nat.le_of_not_lt hin)
      rw [boundary_add h, ih]
      constructor
      · intro hsplit
        obtain ⟨a, b, heq, hlen⟩ := hsplit
        exact ⟨c::a, b, by rw [heq]; rfl, by rw [List.flatMap_cons, List.length_append, hlen]⟩
      · intro hsplit
        obtain ⟨a, b, heq, hlen⟩ := hsplit
        cases a with
        | nil =>
          have := length_pos h c
          rw [List.flatMap_nil, List.length_nil] at hlen
          omega
        | cons d a =>
          obtain ⟨rfl, htail⟩ := List.cons.inj heq
          rw [List.flatMap_cons, List.length_append] at hlen
          exact ⟨a, b, htail, by omega⟩

/-- Below any position a boundary is at most one word's tail away. -/
theorem exists_boundary_near {m : ℕ} (hm : ∀ a, (enc a).length ≤ m+1) (l : List α) {n : ℕ}
    (hn : n ≤ (l.flatMap enc).length) :
    ∃ i ≤ n, n ≤ i+m ∧ boundary lead (l.flatMap enc) i = true := by
  induction l generalizing n with
  | nil =>
    exact ⟨n, le_refl n, by omega, by rw [Nat.eq_zero_of_le_zero hn]; exact boundary_zero _ _⟩
  | cons c l ih =>
    rw [List.flatMap_cons, List.length_append] at hn
    by_cases hin : n < (enc c).length
    · have := hm c
      exact ⟨0, by omega, by omega, boundary_zero _ _⟩
    · obtain ⟨i, hi, hnear, hb⟩ := ih (n := n-(enc c).length) (by omega)
      refine ⟨(enc c).length+i, by omega, by omega, ?_⟩
      rw [List.flatMap_cons, boundary_add h]
      exact hb

end Stream
end Segments
