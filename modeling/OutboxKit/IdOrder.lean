import OutboxKit.Table
import OutboxKit.Truncation

/-! One order in every store. The text of an identifier sorts bytewise as the
identifier does; a query's `ORDER BY` over the columns of a set of queue entries
then lists them as the in-process index does, wherever the signed stamp column
keeps different stamps apart. -/
namespace OutboxKit
open Std Machine Ordered

theorem utf8EncodeChar_ascii {c : Char} (h : c.toNat < 128) :
    String.utf8EncodeChar c = [UInt8.ofNat c.toNat] := by
  have hle : c.val.toNat ≤ 127 := Nat.le_of_lt_succ h
  simp only [String.utf8EncodeChar, if_pos hle]
  rfl

theorem toNat_ofNat_ascii {c : Char} (h : c.toNat < 128) :
    (UInt8.ofNat c.toNat).toNat = c.toNat :=
  UInt8.toNat_ofNat_of_lt' (h.trans (by decide))

theorem ofNat_ascii_lt {c d : Char} (hc : c.toNat < 128) (hd : d.toNat < 128) :
    UInt8.ofNat c.toNat < UInt8.ofNat d.toNat ↔ c < d := by
  rw [UInt8.lt_iff_toNat_lt, toNat_ofNat_ascii hc, toNat_ofNat_ascii hd]
  exact UInt32.lt_iff_toNat_lt.symm

theorem ofNat_ascii_inj {c d : Char} (hc : c.toNat < 128) (hd : d.toNat < 128) :
    UInt8.ofNat c.toNat = UInt8.ofNat d.toNat ↔ c = d := by
  rw [← UInt8.toNat_inj, toNat_ofNat_ascii hc, toNat_ofNat_ascii hd]
  exact Char.toNat_inj

theorem flatMap_utf8_lt_iff {l l' : List Char} (h : ∀ c ∈ l, c.toNat < 128)
    (h' : ∀ c ∈ l', c.toNat < 128) :
    l.flatMap String.utf8EncodeChar < l'.flatMap String.utf8EncodeChar ↔ l < l' := by
  induction l generalizing l' with
  | nil =>
    cases l' with
    | nil => simp
    | cons d l' => simp [utf8EncodeChar_ascii (h' d List.mem_cons_self)]
  | cons c l ih =>
    cases l' with
    | nil => simp
    | cons d l' =>
      have hc := h c List.mem_cons_self
      have hd := h' d List.mem_cons_self
      have hrest := ih (fun x hx => h x (List.mem_cons_of_mem _ hx))
        (fun x hx => h' x (List.mem_cons_of_mem _ hx))
      rw [List.flatMap_cons, List.flatMap_cons, utf8EncodeChar_ascii hc, utf8EncodeChar_ascii hd,
        List.singleton_append, List.singleton_append, List.cons_lt_cons_iff, List.cons_lt_cons_iff,
        ofNat_ascii_lt hc hd, ofNat_ascii_inj hc hd, hrest]

theorem EventId.ascii_text (id : EventId) : ∀ c ∈ id.text.toList, c.toNat < 128 := by
  have table : ∀ n : Fin 16, (hexDigit n).toNat < 128 := by decide
  intro c hc
  rw [text, Uuid.hyphenated, String.toList_ofList] at hc
  cases LexCode.mem_grouped hc with
  | inl h =>
    rw [h]
    decide
  | inr h =>
    obtain ⟨b, -, hb⟩ := h
    have hlt := b.toNat_lt
    cases List.mem_cons.mp hb with
    | inl h =>
      rw [h]
      exact table ⟨b.toNat/16, by omega⟩
    | inr h =>
      rw [List.mem_singleton.mp h]
      exact table ⟨b.toNat%16, by omega⟩

theorem EventId.compare_text_eq_lt_iff (a b : EventId) :
    compare a.text b.text = .lt ↔ utf8 a.text < utf8 b.text := by
  rw [utf8_eq_flatMap, utf8_eq_flatMap, flatMap_utf8_lt_iff a.ascii_text b.ascii_text]
  exact LawfulLTCmp.eq_lt_iff_lt.trans String.lt_iff_toList_lt

def storedColumns (x : UInt64 × EventId) : Int × String := (clampI64 x.1, x.2.text)

/-- The columns order two entries as the index does unless the clamp makes their stamps equal. -/
theorem pairCmp_storedColumns {x y : UInt64 × EventId}
    (hsep : clampI64 x.1 = clampI64 y.1 → x.1 = y.1) (h : pairCmp x y = .lt) :
    pairCmp (storedColumns x) (storedColumns y) = .lt := by
  unfold pairCmp at h ⊢
  simp only [storedColumns, EventId.compare_text]
  cases hstamp : compare x.1 y.1 with
  | lt =>
    have hlt := UInt64.lt_iff_toNat_lt.mp (LawfulLTCmp.eq_lt_iff_lt.mp hstamp)
    have hne : clampI64 x.1 ≠ clampI64 y.1 := by
      intro he
      rw [hsep he] at hlt
      omega
    have hclamp : clampI64 x.1 < clampI64 y.1 := by
      rw [clampI64_eq, clampI64_eq] at hne ⊢
      omega
    have hcmp : compare (clampI64 x.1) (clampI64 y.1) = .lt := LawfulLTCmp.eq_lt_iff_lt.mpr hclamp
    rw [hcmp]
    rfl
  | eq =>
    rw [LawfulEqOrd.eq_of_compare hstamp] at h ⊢
    simpa [ReflOrd.compare_self] using h
  | gt =>
    rw [hstamp] at h
    cases h

/-- Rows in whatever order the table holds them come out as the index lists the entries. -/
theorem orderBy_storedColumns {l rows : List (UInt64 × EventId)}
    (hsorted : l.Pairwise fun x y => pairCmp x y = .lt) (hrows : rows.Perm l)
    (hsep : ∀ x ∈ l, ∀ y ∈ l, clampI64 x.1 = clampI64 y.1 → x.1 = y.1) :
    orderBy pairCmp storedColumns rows = l := by
  have hcolumns : l.Pairwise fun x y => pairCmp (storedColumns x) (storedColumns y) = .lt :=
    hsorted.imp_of_mem fun hx hy h => pairCmp_storedColumns (hsep _ hx _ hy) h
  apply eq_of_mem_iff storedColumns _ hcolumns
  · intro x
    rw [mem_orderBy, hrows.mem_iff]
  · apply orderBy_pairwise
    apply (hrows.pairwise_iff fun hxy he => hxy (OrientedCmp.eq_symm he)).mpr
    apply hcolumns.imp
    intro x y hlt he
    rw [hlt] at he
    cases he

/-- The order of identifiers is the byte order of their texts; a query over the stored columns
of any set of queue entries lists them as the index does, when the clamp keeps their stamps
apart, and always for those below the parked stamp, which are all SQLite's fetch selects. -/
theorem storage_order :
    (∀ a b : EventId, compare a b = .lt ↔ utf8 a.text < utf8 b.text) ∧
    (∀ a b : EventId, compare a.text b.text = .lt ↔ utf8 a.text < utf8 b.text) ∧
    (∀ (queue : ExtTreeSet (UInt64 × EventId) pairCmp) (rows : List (UInt64 × EventId)),
      rows.Perm queue.toList →
      (∀ x ∈ queue, ∀ y ∈ queue, clampI64 x.1 = clampI64 y.1 → x.1 = y.1) →
      orderBy pairCmp storedColumns rows = queue.toList) ∧
    (∀ (queue : ExtTreeSet (UInt64 × EventId) pairCmp) (rows : List (UInt64 × EventId)),
      rows.Perm queue.toList →
      orderBy pairCmp storedColumns (rows.filter fun x => clampI64 x.1 < parkedAsI64) =
        queue.toList.filter fun x => clampI64 x.1 < parkedAsI64) := by
  refine ⟨?_, EventId.compare_text_eq_lt_iff, ?_, ?_⟩
  · intro a b
    rw [← EventId.compare_text_eq_lt_iff, EventId.compare_text]
  · intro queue rows hrows hsep
    apply orderBy_storedColumns ExtTreeSet.ordered_toList hrows
    intro x hx y hy
    exact hsep x (ExtTreeSet.mem_toList.mp hx) y (ExtTreeSet.mem_toList.mp hy)
  · intro queue rows hrows
    apply orderBy_storedColumns (List.Pairwise.filter _ ExtTreeSet.ordered_toList) (hrows.filter _)
    intro x hx y hy heq
    have hbelow := of_decide_eq_true (List.mem_filter.mp hx).2
    rw [clampI64_eq, parkedAsI64, i64Max] at hbelow
    rw [clampI64_eq, clampI64_eq, i64Max] at heq
    apply UInt64.toNat_inj.mp
    omega

/-- Entries of two stamps, one of them parked, shelved in another order than the index has. -/
theorem storage_order_oneParked :
    let queue : ExtTreeSet (UInt64 × EventId) pairCmp :=
      ExtTreeSet.ofList [(5, .ofByte 2), (18446744073709551615, .ofByte 1), (5, .ofByte 1)] pairCmp
    let rows : List (UInt64 × EventId) :=
      [(18446744073709551615, .ofByte 1), (5, .ofByte 2), (5, .ofByte 1)]
    queue.toList = [(5, .ofByte 1), (5, .ofByte 2), (18446744073709551615, .ofByte 1)] ∧
    orderBy pairCmp storedColumns rows = queue.toList := by
  intro queue rows
  have hlist : queue.toList =
      [(5, .ofByte 1), (5, .ofByte 2), (18446744073709551615, .ofByte 1)] := by
    decide +kernel
  refine ⟨hlist, storage_order.2.2.1 queue rows ?_ fun x hx y hy => ?_⟩
  · rw [hlist]
    decide
  · rw [← ExtTreeSet.mem_toList, hlist] at hx hy
    revert x y
    decide

/-- Two stamps past the signed range share one column value, and the identifiers decide alone. -/
theorem storage_order_swapped :
    (ExtTreeSet.ofList [(9223372036854775808, .ofByte 2), (9223372036854775809, .ofByte 1)]
      pairCmp : ExtTreeSet (UInt64 × EventId) pairCmp).toList =
      [(9223372036854775808, .ofByte 2), (9223372036854775809, .ofByte 1)] ∧
    orderBy pairCmp storedColumns
      [(9223372036854775808, .ofByte 2), (9223372036854775809, .ofByte 1)] =
      [(9223372036854775809, .ofByte 1), (9223372036854775808, .ofByte 2)] := by
  constructor
  · decide +kernel
  · decide +kernel

end OutboxKit
