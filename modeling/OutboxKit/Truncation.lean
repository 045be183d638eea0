import OutboxKit.Lib.Segments
import OutboxKit.Store

/-! Truncation of diagnostics. The scan back from the limit stops at the last
character boundary before it, which in UTF-8 is at most three bytes away. -/
namespace OutboxKit

def leadByte (b : UInt8) : Bool := !(128 ≤ b && b < 192)

theorem leadByte_ofNat {n : ℕ} (h : n < 256) :
    leadByte (UInt8.ofNat n) = true ↔ n < 128 ∨ 192 ≤ n := by
  have hn : (UInt8.ofNat n).toNat = n := UInt8.toNat_ofNat_of_lt' h
  have hlow : (128 : UInt8).toNat = 128 := rfl
  have hhigh : (192 : UInt8).toNat = 192 := rfl
  simp only [leadByte, UInt8.le_iff_toNat_le, UInt8.lt_iff_toNat_lt, hn, hlow, hhigh,
    Bool.not_eq_true', Bool.and_eq_false_iff, decide_eq_false_iff_not]
  omega

theorem leadByte_continuation (n : ℕ) : leadByte (UInt8.ofNat (n%64+128)) = false := by
  rw [← Bool.not_eq_true, leadByte_ofNat (by omega)]
  omega

theorem utf8EncodeChar_synchronizing : Segments.Synchronizing String.utf8EncodeChar leadByte := by
  intro c
  simp only [String.utf8EncodeChar]
  -- one case per encoded width
  split
  · refine ⟨_, [], rfl, (leadByte_ofNat (by omega)).mpr (by omega), ?_⟩
    simp
  · split
    · refine ⟨_, _, rfl, (leadByte_ofNat (by omega)).mpr (by omega), ?_⟩
      simp only [List.forall_mem_singleton]
      exact leadByte_continuation _
    · split
      · refine ⟨_, _, rfl, (leadByte_ofNat (by omega)).mpr (by omega), ?_⟩
        simp only [List.forall_mem_cons]
        exact ⟨leadByte_continuation _, leadByte_continuation _, List.forall_mem_nil _⟩
      · refine ⟨_, _, rfl, (leadByte_ofNat (by omega)).mpr (by omega), ?_⟩
        simp only [List.forall_mem_cons]
        exact ⟨leadByte_continuation _, leadByte_continuation _, leadByte_continuation _,
          List.forall_mem_nil _⟩

theorem utf8_eq_flatMap (s : String) : utf8 s = s.toList.flatMap String.utf8EncodeChar := by
  rw [← utf8_ofList, String.ofList_toList]

theorem utf8_append (s t : String) : utf8 (s++t) = utf8 s++utf8 t := by
  rw [utf8_eq_flatMap, utf8_eq_flatMap, utf8_eq_flatMap, String.toList_append, List.flatMap_append]

theorem length_utf8 (s : String) : (utf8 s).length = s.utf8ByteSize := rfl

theorem isCharBoundary_eq (s : String) (i : ℕ) :
    isCharBoundary s i = Segments.boundary leadByte (utf8 s) i := by
  rw [isCharBoundary, Segments.boundary, length_utf8]
  cases h : (utf8 s)[i]? with
  | none => simp
  | some b => simp [leadByte]

/-- Character boundaries are the places where the text splits into two texts. -/
theorem isCharBoundary_iff (s : String) (i : ℕ) :
    isCharBoundary s i = true ↔ ∃ t rest, s = t++rest ∧ t.utf8ByteSize = i := by
  rw [isCharBoundary_eq, utf8_eq_flatMap, Segments.boundary_iff utf8EncodeChar_synchronizing]
  constructor
  · intro h
    obtain ⟨a, b, heq, hlen⟩ := h
    refine ⟨.ofList a, .ofList b, ?_, ?_⟩
    · rw [← String.ofList_append, ← heq, String.ofList_toList]
    · rw [← length_utf8, utf8_ofList, hlen]
  · intro h
    obtain ⟨t, rest, rfl, hlen⟩ := h
    refine ⟨t.toList, rest.toList, String.toList_append, ?_⟩
    rw [← utf8_eq_flatMap, length_utf8, hlen]

theorem exists_isCharBoundary_near {s : String} {n : ℕ} (hn : n ≤ s.utf8ByteSize) :
    ∃ i ≤ n, n ≤ i+3 ∧ isCharBoundary s i = true := by
  have hwidth : ∀ c, (String.utf8EncodeChar c).length ≤ 3+1 := by
    intro c
    rw [String.length_utf8EncodeChar]
    exact c.utf8Size_le_four
  rw [← length_utf8, utf8_eq_flatMap] at hn
  obtain ⟨i, hi, hnear, hb⟩ :=
    Segments.exists_boundary_near utf8EncodeChar_synchronizing hwidth s.toList hn
  refine ⟨i, hi, hnear, ?_⟩
  rw [isCharBoundary_eq, utf8_eq_flatMap]
  exact hb

theorem scanBack_le (s : String) (n : ℕ) : scanBack s n ≤ n := by
  induction n with
  | zero => exact le_refl _
  | succ n ih =>
    rw [scanBack]
    split
    · exact le_refl _
    · omega

theorem isCharBoundary_scanBack (s : String) (n : ℕ) :
    isCharBoundary s (scanBack s n) = true := by
  induction n with
  | zero => rfl
  | succ n ih =>
    rw [scanBack]
    split
    · assumption
    · exact ih

theorem le_scanBack {s : String} {n i : ℕ} (hi : i ≤ n) (hb : isCharBoundary s i = true) :
    i ≤ scanBack s n := by
  induction n with
  | zero => exact hi
  | succ n ih =>
    rw [scanBack]
    split
    · exact hi
    · have hne : i ≠ n+1 := by
        intro he
        rw [he] at hb
        contradiction
      exact ih (by omega)

theorem strPrefix_append (t rest : String) : strPrefix (t++rest) t.utf8ByteSize = some t := by
  have hb : isCharBoundary (t++rest) t.utf8ByteSize = true :=
    (isCharBoundary_iff _ _).mpr ⟨t, rest, rfl, rfl⟩
  rw [strPrefix, if_pos hb, utf8_append, ← length_utf8, List.take_left, fromUtf8_utf8]

/-- `t` opens `s`, ends where a character of `s` does, has at most `max` bytes, and no
character boundary of `s` lies between its end and the limit. -/
structure LongestOpening (max : ℕ) (s t : String) : Prop where
  opens : ∃ rest, s = t++rest
  boundary : isCharBoundary s t.utf8ByteSize = true
  bounded : t.utf8ByteSize ≤ max
  longest : ∀ u rest, s = u++rest → u.utf8ByteSize ≤ max → u.utf8ByteSize ≤ t.utf8ByteSize

theorem truncateTo_of_le {max : ℕ} {s : String} (h : s.utf8ByteSize ≤ max) :
    truncateTo max s = s :=
  if_pos h

/-- A text over the limit is cut at the boundary the scan finds. -/
theorem truncateTo_of_lt {max : ℕ} {s : String} (h : max < s.utf8ByteSize) :
    strPrefix s (scanBack s max) = some (truncateTo max s) ∧
      LongestOpening max s (truncateTo max s) ∧ max ≤ (truncateTo max s).utf8ByteSize+3 := by
  obtain ⟨t, rest, heq, hsize⟩ := (isCharBoundary_iff s _).mp (isCharBoundary_scanBack s max)
  have hcut : strPrefix s (scanBack s max) = some t := by
    rw [← hsize, heq]
    exact strPrefix_append t rest
  have hval : truncateTo max s = t := by
    rw [truncateTo, if_neg (not_le.mpr h), hcut, Option.getD_some]
  rw [hval]
  refine ⟨hcut, ?_, ?_⟩
  · constructor
    · exact ⟨rest, heq⟩
    · rw [hsize]
      exact isCharBoundary_scanBack s max
    · rw [hsize]
      exact scanBack_le s max
    · intro u tail hu hmax
      rw [hsize]
      exact le_scanBack hmax ((isCharBoundary_iff s _).mpr ⟨u, tail, hu, rfl⟩)
  · obtain ⟨i, hi, hnear, hb⟩ := exists_isCharBoundary_near h.le
    have := le_scanBack hi hb
    omega

theorem truncateTo_idem (max : ℕ) (s : String) :
    truncateTo max (truncateTo max s) = truncateTo max s := by
  by_cases h : s.utf8ByteSize ≤ max
  · rw [truncateTo_of_le h, truncateTo_of_le h]
  · exact truncateTo_of_le (truncateTo_of_lt (not_le.mp h)).2.1.bounded

/-- Both truncations keep the longest opening within 1024 bytes, lose at most three bytes to
the boundary, never take the empty fallback, and change nothing the second time. -/
theorem truncate_longest (s : String) :
    (s.utf8ByteSize ≤ 1024 → truncateError s = s ∧ truncateReason s = s) ∧
    (1024 < s.utf8ByteSize → ∀ t ∈ [truncateError s, truncateReason s],
      LongestOpening 1024 s t ∧ 1021 ≤ t.utf8ByteSize ∧
        strPrefix s (scanBack s 1024) = some t) ∧
    truncateError (truncateError s) = truncateError s ∧
    truncateReason (truncateReason s) = truncateReason s := by
  refine ⟨?_, ?_, truncateTo_idem _ s, truncateTo_idem _ s⟩
  · intro h
    exact ⟨truncateTo_of_le h, truncateTo_of_le h⟩
  · intro h
    have hsame : ∀ t ∈ [truncateError s, truncateReason s], t = truncateTo 1024 s := by
      intro t ht
      simpa [truncateError, truncateReason, maxErrorBytes, maxReasonBytes] using ht
    intro t ht
    obtain ⟨hcut, hlongest, hnear⟩ := truncateTo_of_lt h
    rw [hsame t ht]
    exact ⟨hlongest, by omega, hcut⟩

end OutboxKit
