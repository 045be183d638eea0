import OutboxKit.Outbox
import OutboxKit.Lib.Commit

/-! What the two durable stores' queries have in common. A table is keyed by the
identifier's text; `fetch_due` selects rows, orders them by stamp and key, cuts
at the limit and decodes each; the counts select and count. Given how a row
reads as an entry of the outbox, the queries answer as the model does. -/
namespace OutboxKit
open Std Machine Ordered Commit

def backend (err : SqlError) : StoreError := .backend (.driver err)

def execute {δ : Type} (stmts : List (Statement δ SqlError)) (t : δ) : Except StoreError Unit × δ :=
  ((exec stmts t).1.mapError backend, (exec stmts t).2)

theorem execute_ok {δ : Type} {stmt : Statement δ SqlError} {t t' : δ} (h : stmt t = .ok t') :
    execute [stmt] t = (.ok (), t') := by
  simp only [execute, exec, h, Except.mapError]

theorem execute_error {δ : Type} {stmt : Statement δ SqlError} {t : δ} {err : SqlError}
    (h : stmt t = .error err) : execute [stmt] t = (.error (backend err), t) := by
  simp only [execute, exec, h, Except.mapError]

section Query
variable {ρ : Type}

/-- `SELECT .. WHERE sel ORDER BY stamp, id`. -/
def selectOrdered (stamp : ρ → Int) (sel : ρ → Bool) (t : ExtTreeMap String ρ) :
    List (String × ρ) :=
  orderBy pairCmp (fun kr : String × ρ => (stamp kr.2, kr.1)) (t.toList.filter fun kr => sel kr.2)

/-- `SELECT COUNT(*) .. WHERE sel`, as the interface's `u64`. -/
def selectCount (sel : ρ → Bool) (t : ExtTreeMap String ρ) : UInt64 :=
  unclampU64 (t.toList.filter fun kr => sel kr.2).length

theorem mem_selectOrdered {stamp : ρ → Int} {sel : ρ → Bool} {t : ExtTreeMap String ρ}
    {key : String} {row : ρ} :
    (key, row) ∈ selectOrdered stamp sel t ↔ t[key]? = some row ∧ sel row = true := by
  rw [selectOrdered, mem_orderBy, List.mem_filter, ExtTreeMap.mem_toList_iff_getElem?_eq_some]

theorem selectOrdered_pairwise (stamp : ρ → Int) (sel : ρ → Bool) (t : ExtTreeMap String ρ) :
    (selectOrdered stamp sel t).Pairwise fun x y =>
      pairCmp (stamp x.2, x.1) (stamp y.2, y.1) = .lt := by
  refine orderBy_pairwise _ _ (List.Pairwise.filter _ ?_)
  refine (ExtTreeMap.distinct_keys_toList (t := t)).imp ?_
  intro x y hne he
  exact hne (Ordering.then_eq_eq.mp he).2

end Query

/-- `LIMIT i64::try_from(limit).unwrap_or(i64::MAX)`. -/
def limitRows (limit : UInt64) : Nat := ((tryI64 limit).getD i64Max).toNat

theorem limitRows_cases (limit : UInt64) : limitRows limit = limit.toNat ∨
    2^63 ≤ limitRows limit+1 ∧ 2^63 ≤ limit.toNat := by
  unfold limitRows tryI64 i64Max
  split
  · exact Or.inl rfl
  · exact Or.inr ⟨by decide, by omega⟩

/-- An event from the columns both live and letter rows carry. -/
def decodeEvent (U : UuidCrate) (id topic : String) (payload headers : List UInt8)
    (createdAt attempts : Int) (lastError : Option String) : Except StoreError OutboxEvent :=
  match EventId.parse U id with
  | .error _ => .error (.backend (.kit ("corrupt event id in store: " ++ id)))
  | .ok id => do
    let headers ← decodeHeaders headers
    return {
      id, topic, payload, headers
      createdAt := unclampU64 createdAt
      attempts := (tryU32 attempts).getD u32Max
      lastError }

/-- A row of `outbox_dead_letters`, less its key; both schemas have the same columns. -/
structure LetterRow where
  topic : String
  payload : List UInt8
  headers : List UInt8
  createdAt : Int
  attempts : Int
  lastError : Option String
  reason : String
  deadLetteredAt : Int
deriving DecidableEq

def letterFromRow (U : UuidCrate) (kr : String × LetterRow) :
    Except StoreError (OutboxEvent × String) := do
  let e ← decodeEvent U kr.1 kr.2.topic kr.2.payload kr.2.headers kr.2.createdAt kr.2.attempts
    kr.2.lastError
  return (e, kr.2.reason)

/-- `SELECT .. FROM outbox_dead_letters ORDER BY dead_lettered_at, id LIMIT ?`. -/
def selectLetters (U : UuidCrate) (limit : UInt64) (t : ExtTreeMap String LetterRow) :
    Except StoreError (List (OutboxEvent × String)) :=
  ((selectOrdered (·.deadLetteredAt) (fun _ => true) t).take (limitRows limit)).mapM
    (letterFromRow U)

theorem decodeEvent_ok (U : UuidCrate) (id : EventId) (topic : String) (payload : List UInt8)
    {blob : List UInt8} {headers : Headers} (createdAt attempts : Int) (lastError : Option String)
    (h : decodeHeaders blob = .ok headers) :
    decodeEvent U id.text topic payload blob createdAt attempts lastError = .ok
      ⟨id, topic, payload, headers, unclampU64 createdAt, (tryU32 attempts).getD u32Max,
        lastError⟩ := by
  simp only [decodeEvent, EventId.parse_text, h]
  rfl

theorem tryU32_toNat {n : Int} (h : 0 ≤ n) :
    ((tryU32 n).getD u32Max).toNat = min n.toNat (2^32-1) := by
  unfold tryU32
  split
  · rename_i hlt
    rw [Option.getD_some, UInt32.toNat_ofNat', Nat.mod_eq_of_lt (by omega)]
    omega
  · rw [Option.getD_none, u32Max_toNat]
    omega

theorem tryU32_succ {n : Int} (h : 0 ≤ n) :
    (tryU32 (n+1)).getD u32Max = satAdd32 ((tryU32 n).getD u32Max) 1 := by
  apply UInt32.toNat_inj.mp
  have hone : (1 : UInt32).toNat = 1 := rfl
  rw [satAdd32_toNat, tryU32_toNat h, tryU32_toNat (by omega), hone]
  omega

theorem mapM_ok {α β ε : Type} {f : α → Except ε β} {l : List α}
    (h : ∀ x ∈ l, ∃ y, f x = .ok y) : l.mapM f = .ok (l.filterMap fun x => (f x).toOption) := by
  induction l with
  | nil => rfl
  | cons x l ih =>
    obtain ⟨y, hy⟩ := h x List.mem_cons_self
    have ih := ih fun z hz => h z (List.mem_cons_of_mem _ hz)
    rw [List.mapM_cons, hy, ih, List.filterMap_cons_some (by rw [hy]; rfl)]
    rfl

theorem mem_of_mapM_ok {α β ε : Type} {f : α → Except ε β} {l : List α} {ys : List β}
    (h : l.mapM f = .ok ys) {y : β} (hy : y ∈ ys) : ∃ x ∈ l, f x = .ok y := by
  induction l generalizing ys with
  | nil =>
    cases h
    cases hy
  | cons x l ih =>
    rw [List.mapM_cons] at h
    cases hx : f x with
    | error err => rw [hx] at h; cases h
    | ok z =>
      cases hl : l.mapM f with
      | error err => rw [hx, hl] at h; cases h
      | ok zs =>
        rw [hx, hl] at h
        cases h
        rcases List.mem_cons.mp hy with rfl | hy
        · exact ⟨x, List.mem_cons_self, hx⟩
        · obtain ⟨w, hw, hfw⟩ := ih hl hy
          exact ⟨w, List.mem_cons_of_mem _ hw, hfw⟩

theorem decodeEvent_id (U : UuidCrate) {id : EventId} {topic : String}
    {payload headers : List UInt8} {createdAt attempts : Int} {lastError : Option String}
    {e : OutboxEvent}
    (h : decodeEvent U id.text topic payload headers createdAt attempts lastError = .ok e) :
    e.id = id := by
  cases hdec : decodeHeaders headers with
  | error err =>
    simp only [decodeEvent, EventId.parse_text, hdec] at h
    cases h
  | ok decoded =>
    rw [decodeEvent_ok U id _ _ _ _ _ hdec] at h
    cases h
    rfl

theorem decodeEvent_attempts (U : UuidCrate) {id : EventId} {topic : String}
    {payload headers : List UInt8} {createdAt attempts : Int} {lastError : Option String}
    {e : OutboxEvent} (h₀ : 0 ≤ attempts)
    (h : decodeEvent U id.text topic payload headers createdAt attempts lastError = .ok e) :
    e.attempts.toNat = min attempts.toNat (2^32-1) := by
  cases hdec : decodeHeaders headers with
  | error err =>
    simp only [decodeEvent, EventId.parse_text, hdec] at h
    cases h
  | ok decoded =>
    rw [decodeEvent_ok U id _ _ _ _ _ hdec] at h
    cases h
    exact tryU32_toNat h₀

/-- A due column as the stamp it stands for; the column's ceiling is `never`. -/
def stampOf (column : Int) : UInt64 := if column < parkedAsI64 then unclampU64 column else never

theorem unclampU64_toNat {n : Int} (h₀ : 0 ≤ n) (h₁ : n < 2^64) :
    (unclampU64 n).toNat = n.toNat := by
  rw [unclampU64, tryU64, if_pos ⟨h₀, h₁⟩, Option.getD_some, UInt64.toNat_ofNat',
    Nat.mod_eq_of_lt (by omega)]

theorem unclampU64_le_iff {n : Int} {now : UInt64} (h₀ : 0 ≤ n) (h₁ : n ≤ parkedAsI64) :
    unclampU64 n ≤ now ↔ n ≤ clampI64 now := by
  unfold parkedAsI64 i64Max at h₁
  rw [UInt64.le_iff_toNat_le, unclampU64_toNat h₀ (by omega), clampI64_eq, i64Max]
  omega

theorem stampOf_ne_never_iff {n : Int} (h₀ : 0 ≤ n) : stampOf n ≠ never ↔ n < parkedAsI64 := by
  unfold stampOf
  split
  · rename_i h
    refine ⟨fun _ => h, fun _ he => ?_⟩
    have hn := congrArg UInt64.toNat he
    unfold parkedAsI64 i64Max at h
    rw [unclampU64_toNat h₀ (by omega), never, u64Max_toNat] at hn
    omega
  · rename_i h
    simp [h]

theorem stampOf_eq_never_iff {n : Int} (h₀ : 0 ≤ n) : stampOf n = never ↔ parkedAsI64 ≤ n := by
  have h := not_iff_not.mpr (stampOf_ne_never_iff h₀)
  rwa [ne_eq, not_not, Int.not_lt] at h

theorem stampOf_clampI64 {v : UInt64} (h : v.toNat < 2^63-1 ∨ v = never) :
    stampOf (clampI64 v) = v := by
  unfold stampOf
  rcases h with h | rfl
  · rw [if_pos (by rw [clampI64_eq, parkedAsI64, i64Max]; omega), unclampU64_clampI64 (by omega)]
  · decide

theorem clampI64_eq_i64Max_iff (v : UInt64) : clampI64 v = i64Max ↔ 2^63-1 ≤ v.toNat := by
  rw [clampI64_eq, i64Max]
  omega

theorem stampOf_clampI64_eq_never_iff (v : UInt64) :
    stampOf (clampI64 v) = never ↔ 2^63-1 ≤ v.toNat := by
  rw [stampOf_eq_never_iff (clampI64_nonneg _), clampI64_eq, parkedAsI64, i64Max]
  omega

/-- Stamps and texts of identifiers sort as the columns do. -/
theorem pairCmp_columns {m n : Int} (hm : 0 ≤ m) (hm' : m < 2^64) (hn : 0 ≤ n) (hn' : n < 2^64)
    {a b : EventId} (h : pairCmp (m, a.text) (n, b.text) = .lt) :
    pairCmp (unclampU64 m, a) (unclampU64 n, b) = .lt := by
  unfold pairCmp at h ⊢
  simp only [EventId.compare_text] at h ⊢
  have hmn : (unclampU64 m < unclampU64 n) ↔ m < n := by
    rw [UInt64.lt_iff_toNat_lt, unclampU64_toNat hm hm', unclampU64_toNat hn hn']
    omega
  rcases Int.lt_trichotomy m n with hlt | rfl | hgt
  · have hc : compare (unclampU64 m) (unclampU64 n) = .lt :=
      LawfulLTCmp.eq_lt_iff_lt.mpr (hmn.mpr hlt)
    rw [hc]
    rfl
  · simpa [ReflOrd.compare_self] using h
  · have hc : compare m n = .gt := LawfulLTCmp.eq_gt_iff_gt.mpr hgt
    rw [hc] at h
    cases h

theorem insertIfNew_of_some {ρ : Type} {t : ExtTreeMap String ρ} {key : String} {row : ρ}
    (h : t[key]? = some row) (new : ρ) : t.insertIfNew key new = t := by
  have hmem : key ∈ t := ExtTreeMap.mem_iff_isSome_getElem?.mpr (by rw [h]; rfl)
  apply ExtTreeMap.ext_getElem?
  intro k
  rw [ExtTreeMap.getElem?_insertIfNew, if_neg (fun hk => hk.2 hmem)]

theorem insertIfNew_of_none {ρ : Type} {t : ExtTreeMap String ρ} {key : String}
    (h : t[key]? = none) (new : ρ) : t.insertIfNew key new = t.insert key new := by
  have hmem : key ∉ t := fun hm => by
    have := ExtTreeMap.mem_iff_isSome_getElem?.mp hm
    rw [h] at this
    cases this
  apply ExtTreeMap.ext_getElem?
  intro k
  simp only [ExtTreeMap.getElem?_insertIfNew, ExtTreeMap.getElem?_insert, hmem, not_false_eq_true,
    and_true]

section Rows
variable {ρ : Type} {m : ExtTreeMap String ρ} {id k : EventId} {row : ρ}

def Has (m : ExtTreeMap String ρ) (id : EventId) : Prop := m[id.text]? ≠ none

theorem has_of_some (h : m[id.text]? = some row) : Has m id := by simp [Has, h]

theorem has_insert : Has (m.insert k.text row) id ↔ Has m id ∨ id = k := by
  by_cases h : k = id
  · simp [Has, h]
  · simp [Has, ExtTreeMap.getElem?_insert, EventId.text_inj, h, Ne.symm h]

theorem has_erase : Has (m.erase k.text) id ↔ Has m id ∧ id ≠ k := by
  by_cases h : k = id
  · simp [Has, h]
  · simp [Has, ExtTreeMap.getElem?_erase, EventId.text_inj, h, Ne.symm h]

theorem has_insert_known {old : ρ} (h : m[k.text]? = some old) :
    Has (m.insert k.text row) id ↔ Has m id := by
  rw [has_insert, or_iff_left_iff_imp]
  rintro rfl
  exact has_of_some h

def Finds (p : ρ → Prop) (m : ExtTreeMap String ρ) (id : EventId) : Prop :=
  ∃ row, m[id.text]? = some row ∧ p row

theorem finds_insert {p : ρ → Prop} :
    Finds p (m.insert k.text row) id ↔ id = k ∧ p row ∨ id ≠ k ∧ Finds p m id := by
  by_cases h : k = id
  · simp [Finds, h]
  · simp [Finds, ExtTreeMap.getElem?_insert, EventId.text_inj, h, Ne.symm h]

theorem finds_insert_cases {p : ρ → Prop} (h : Finds p (m.insert k.text row) id) :
    id = k ∨ Finds p m id := by
  cases finds_insert.mp h with
  | inl h => exact Or.inl h.1
  | inr h => exact Or.inr h.2

theorem finds_of_insert {p : ρ → Prop} (hrow : p row → Finds p m k)
    (h : Finds p (m.insert k.text row) id) : Finds p m id := by
  cases finds_insert.mp h with
  | inl h =>
    obtain ⟨rfl, hp⟩ := h
    exact hrow hp
  | inr h => exact h.2

theorem getElem?_insert_ne {key : String} (h : key ≠ k.text) :
    (m.insert k.text row)[key]? = m[key]? := by
  simp [ExtTreeMap.getElem?_insert, Ne.symm h]

end Rows

/-- Where a store keeps its live rows, which events it takes in, and as which rows. -/
structure RowTable (τ ρ : Type) where
  rows : τ → ExtTreeMap String ρ
  write : τ → String → ρ → τ
  Accepts : OutboxEvent → Prop
  Inserts : OutboxEvent → ρ → Prop
  rows_write : ∀ t key row, rows (write t key row) = (rows t).insert key row

namespace RowTable
variable {τ ρ : Type} (T : RowTable τ ρ)

/-- What an append answers and leaves behind. -/
inductive Appends (e : OutboxEvent) (t : τ) : Except StoreError Unit → τ → Prop
  | refused (err : StoreError) (hacc : ¬T.Accepts e) : Appends e t (.error err) t
  | known (row : ρ) (hacc : T.Accepts e) (hget : (T.rows t)[e.id.text]? = some row) :
      Appends e t (.ok ()) t
  | inserted (row : ρ) (hacc : T.Accepts e) (hget : (T.rows t)[e.id.text]? = none)
      (hrow : T.Inserts e row) : Appends e t (.ok ()) (T.write t e.id.text row)

/-- What a mark answers and leaves behind: it passes over a row that `skips` names, and
rewrites any other as `rewrites` says. -/
inductive Marks (skips : ρ → Prop) (rewrites : ρ → ρ → Prop) (k : EventId) (t : τ) :
    Except StoreError Unit → τ → Prop
  | refused (err : StoreError) : Marks skips rewrites k t (.error err) t
  | unknown (hget : (T.rows t)[k.text]? = none) : Marks skips rewrites k t (.ok ()) t
  | skipped (row : ρ) (hget : (T.rows t)[k.text]? = some row) (hskip : skips row) :
      Marks skips rewrites k t (.ok ()) t
  | written (old new : ρ) (hget : (T.rows t)[k.text]? = some old) (hrow : rewrites old new) :
      Marks skips rewrites k t (.ok ()) (T.write t k.text new)

variable {T} {e : OutboxEvent} {id k : EventId} {key : String} {t t' : τ}
  {result : Except StoreError Unit} {skips p : ρ → Prop} {rewrites : ρ → ρ → Prop}

theorem Appends.ok_iff (h : T.Appends e t result t') : result = .ok () ↔ T.Accepts e := by
  cases h with
  | refused err hacc => simpa using hacc
  | known row hacc hget => simpa using hacc
  | inserted row hacc hget hrow => simpa using hacc

theorem Appends.has_iff (h : T.Appends e t result t') :
    Has (T.rows t') id ↔ Has (T.rows t) id ∨ id = e.id ∧ result = .ok () := by
  cases h with
  | refused err hacc => simp
  | known row hacc hget =>
    rw [eq_self_iff_true, and_true, iff_self_or]
    rintro rfl
    exact has_of_some hget
  | inserted row hacc hget hrow =>
    rw [T.rows_write, has_insert, eq_self_iff_true, and_true]

theorem Appends.same (h : T.Appends e t result t') (hk : Has (T.rows t) e.id) : t' = t := by
  cases h with
  | refused err hacc => rfl
  | known row hacc hget => rfl
  | inserted row hacc hget hrow => exact absurd hget hk

theorem Appends.row_known (h : T.Appends e t result t') (hk : (T.rows t)[key]? ≠ none) :
    (T.rows t')[key]? = (T.rows t)[key]? := by
  cases h with
  | refused err hacc => rfl
  | known row hacc hget => rfl
  | inserted row hacc hget hrow =>
    rw [T.rows_write]
    refine getElem?_insert_ne ?_
    rintro rfl
    exact hk hget

theorem Appends.row_other (h : T.Appends e t result t') (hne : key ≠ e.id.text) :
    (T.rows t')[key]? = (T.rows t)[key]? := by
  cases h with
  | refused err hacc => rfl
  | known row hacc hget => rfl
  | inserted row hacc hget hrow =>
    rw [T.rows_write]
    exact getElem?_insert_ne hne

/-- An append changes nothing, or writes the row of an event it accepts. -/
theorem Appends.effect (h : T.Appends e t result t') :
    (Has (T.rows t) e.id ∨ ¬T.Accepts e) ∧ t' = t ∨
      T.Accepts e ∧ ∃ row, t' = T.write t e.id.text row := by
  cases h with
  | refused err hacc => exact Or.inl ⟨Or.inr hacc, rfl⟩
  | known row hacc hget => exact Or.inl ⟨Or.inl (has_of_some hget), rfl⟩
  | inserted row hacc hget hrow => exact Or.inr ⟨hacc, row, rfl⟩

theorem Appends.finds (h : T.Appends e t result t') (hnew : ∀ row, T.Inserts e row → ¬p row)
    (hp : Finds p (T.rows t') id) : Finds p (T.rows t) id := by
  cases h with
  | refused err hacc => exact hp
  | known row hacc hget => exact hp
  | inserted row hacc hget hrow =>
    rw [T.rows_write] at hp
    exact finds_of_insert (fun hr => absurd hr (hnew row hrow)) hp

theorem Marks.has_iff (h : T.Marks skips rewrites k t result t') :
    Has (T.rows t') id ↔ Has (T.rows t) id := by
  cases h with
  | refused err => rfl
  | unknown hget => rfl
  | skipped row hget hskip => rfl
  | written old new hget hrow =>
    rw [T.rows_write]
    exact has_insert_known hget

theorem Marks.row_other (h : T.Marks skips rewrites k t result t') (hne : key ≠ k.text) :
    (T.rows t')[key]? = (T.rows t)[key]? := by
  cases h with
  | refused err => rfl
  | unknown hget => rfl
  | skipped row hget hskip => rfl
  | written old new hget hrow =>
    rw [T.rows_write]
    exact getElem?_insert_ne hne

theorem Marks.effect (h : T.Marks skips rewrites k t result t') :
    t' = t ∨ ∃ old new, (T.rows t)[k.text]? = some old ∧ t' = T.write t k.text new := by
  cases h with
  | refused err => exact Or.inl rfl
  | unknown hget => exact Or.inl rfl
  | skipped row hget hskip => exact Or.inl rfl
  | written old new hget hrow => exact Or.inr ⟨old, new, hget, rfl⟩

theorem Marks.finds_cases (h : T.Marks skips rewrites k t result t')
    (hp : Finds p (T.rows t') id) : id = k ∨ Finds p (T.rows t) id := by
  cases h with
  | refused err => exact Or.inr hp
  | unknown hget => exact Or.inr hp
  | skipped row hget hskip => exact Or.inr hp
  | written old new hget hrow =>
    rw [T.rows_write] at hp
    exact finds_insert_cases hp

theorem Marks.finds (h : T.Marks skips rewrites k t result t')
    (hkeep : ∀ old new, rewrites old new → p new → p old) (hp : Finds p (T.rows t') id) :
    Finds p (T.rows t) id := by
  cases h with
  | refused err => exact hp
  | unknown hget => exact hp
  | skipped row hget hskip => exact hp
  | written old new hget hrow =>
    rw [T.rows_write] at hp
    exact finds_of_insert (fun hr => ⟨old, hget, hkeep old new hrow hr⟩) hp

end RowTable

def tableEntry {ρ : Type} (read : EventId → ρ → Entry) (t : ExtTreeMap String ρ) : Outbox :=
  fun id =>
    match t[id.text]? with
    | none => .absent
    | some row => read id row

theorem tableEntry_insert {ρ : Type} (read : EventId → ρ → Entry) (t : ExtTreeMap String ρ)
    (id : EventId) (row : ρ) : tableEntry read (t.insert id.text row) =
      Function.update (tableEntry read t) id (read id row) := by
  funext k
  by_cases hk : id = k
  · subst hk
    simp [tableEntry]
  · simp [tableEntry, ExtTreeMap.getElem?_insert, EventId.text_inj, hk,
      Function.update_of_ne (Ne.symm hk)]

/-- What every row a store writes satisfies: its key spells an identifier, its
headers decode, and its two counters are not negative. -/
structure Columns (key : String) (headers : List UInt8) (attempts due : Int) : Prop where
  key : ∃ id : EventId, key = id.text
  headers : ∃ decoded, decodeHeaders headers = .ok decoded
  attempts : 0 ≤ attempts
  due : 0 ≤ due

theorem Columns.decode (U : UuidCrate) {key : String} {headers : List UInt8} {attempts due : Int}
    (h : Columns key headers attempts due) (topic : String) (payload : List UInt8)
    (createdAt : Int) (lastError : Option String) : ∃ e : OutboxEvent, key = e.id.text ∧
      decodeEvent U key topic payload headers createdAt attempts lastError = .ok e := by
  obtain ⟨id, rfl⟩ := h.key
  obtain ⟨decoded, hdec⟩ := h.headers
  exact ⟨_, rfl, decodeEvent_ok U id topic payload createdAt attempts lastError hdec⟩

/-- A counter one higher and a new diagnostic read as one more recorded failure. -/
theorem decodeEvent_failed (U : UuidCrate) {id : EventId} {topic : String}
    {payload headers : List UInt8} {createdAt attempts : Int} {lastError : Option String}
    {e : OutboxEvent} (error : String) (h₀ : 0 ≤ attempts)
    (h : decodeEvent U id.text topic payload headers createdAt attempts lastError = .ok e) :
    decodeEvent U id.text topic payload headers createdAt (attempts+1)
      (some (truncateError error)) = .ok (e.failed error) := by
  cases hdec : decodeHeaders headers with
  | error err =>
    simp only [decodeEvent, EventId.parse_text, hdec] at h
    cases h
  | ok decoded =>
    rw [decodeEvent_ok U id _ _ _ _ _ hdec] at h ⊢
    cases h
    simp only [OutboxEvent.failed, tryU32_succ h₀]

section Selected
variable {ρ : Type} {stamp : ρ → Int} {sel : ρ → Bool} {t : ExtTreeMap String ρ} {o : Outbox}
  {decode : String × ρ → Except StoreError OutboxEvent}
  (shown : String × ρ → Option (UInt64 × OutboxEvent))

/-- A query whose rows show the due entries of an outbox answers as the model's
`fetch_due`. -/
theorem dueList_of_selected {now : UInt64}
    (hrow : ∀ kr ∈ selectOrdered stamp sel t, ∃ e : OutboxEvent, kr.1 = e.id.text ∧
      decode kr = .ok e ∧ shown kr = some (unclampU64 (stamp kr.2), e) ∧
      0 ≤ stamp kr.2 ∧ stamp kr.2 < 2^64)
    (hdue : ∀ due e, (o e.id = .live due e ∧ due ≤ now ∧ due ≠ never) ↔
      ∃ kr ∈ selectOrdered stamp sel t, shown kr = some (due, e)) :
    ∃ l, o.DueList now l ∧
      ∀ n, ((selectOrdered stamp sel t).take n).mapM decode = .ok ((l.take n).map (·.2)) := by
  refine ⟨(selectOrdered stamp sel t).filterMap shown, ⟨?_, ?_⟩, fun n => ?_⟩
  · rw [List.pairwise_filterMap]
    refine (selectOrdered_pairwise stamp sel t).imp_of_mem ?_
    intro x y hx hy hlt a ha b hb
    obtain ⟨e, hke, -, hse, h₀e, h₁e⟩ := hrow x hx
    obtain ⟨f, hkf, -, hsf, h₀f, h₁f⟩ := hrow y hy
    rw [hse] at ha
    rw [hsf] at hb
    cases ha
    cases hb
    rw [hke, hkf] at hlt
    exact pairCmp_columns h₀e h₁e h₀f h₁f hlt
  · intro due e
    rw [hdue, List.mem_filterMap]
  · have hok : ∀ kr ∈ (selectOrdered stamp sel t).take n, ∃ e, decode kr = .ok e := by
      intro kr hkr
      obtain ⟨e, -, hd, -⟩ := hrow kr (List.mem_of_mem_take hkr)
      exact ⟨e, hd⟩
    have hsome : ∀ kr ∈ selectOrdered stamp sel t, (shown kr).isSome := by
      intro kr hkr
      obtain ⟨e, -, -, hs, -⟩ := hrow kr hkr
      rw [hs]
      rfl
    rw [mapM_ok hok, ← take_filterMap _ _ _ hsome]
    refine congrArg _ (List.filterMap_congr fun kr hkr => ?_)
    obtain ⟨e, -, hd, hs, -⟩ := hrow kr (List.mem_of_mem_take hkr)
    rw [hd, hs]
    rfl

theorem tally_of_selected {p : UInt64 → Prop}
    (hrow : ∀ kr ∈ t.toList.filter (fun kr => sel kr.2), ∃ due, ∃ e : OutboxEvent,
      kr.1 = e.id.text ∧ shown kr = some (due, e))
    (hlive : ∀ due e, (o e.id = .live due e ∧ p due) ↔
      ∃ kr ∈ t.toList.filter (fun kr => sel kr.2), shown kr = some (due, e)) :
    ∃ l, o.Tally p l ∧ Reply.count (.ok (selectCount sel t)) = Outbox.countReply l.length := by
  have hlen : ((t.toList.filter fun kr => sel kr.2).filterMap shown).length =
      (t.toList.filter fun kr => sel kr.2).length := by
    refine List.filterMap_length_eq_length.mpr fun kr hkr => ?_
    obtain ⟨due, e, -, hs⟩ := hrow kr hkr
    rw [hs]
    rfl
  refine ⟨(t.toList.filter fun kr => sel kr.2).filterMap shown, ⟨?_, ?_⟩, ?_⟩
  · have hkeys : (t.toList.filter fun kr => sel kr.2).Pairwise fun x y => compare x.1 y.1 = .lt :=
      List.Pairwise.filter _ ExtTreeMap.ordered_keys_toList
    refine List.pairwise_filterMap.mpr (hkeys.imp_of_mem ?_)
    intro x y hx hy hlt a ha b hb hab
    obtain ⟨due, e, hke, hse⟩ := hrow x hx
    obtain ⟨due', f, hkf, hsf⟩ := hrow y hy
    rw [hse] at ha
    rw [hsf] at hb
    cases ha
    cases hb
    cases hab
    rw [hke, hkf, ReflOrd.compare_self] at hlt
    cases hlt
  · intro due e
    rw [hlive, List.mem_filterMap]
  · rw [selectCount, unclampU64, tryU64_natCast, Outbox.countReply, hlen]

end Selected

/-- How the rows of a table read as an outbox: `stamp` is the due column, `live`
the rows not dispatched, `decode` the row as an event. A live row is filed under
its event's identifier, and the live entries are the live rows. -/
structure Reading {ρ : Type} (stamp : ρ → Int) (live : ρ → Bool)
    (decode : String × ρ → Except StoreError OutboxEvent) (t : ExtTreeMap String ρ)
    (o : Outbox) : Prop where
  row : ∀ (key : String) (row : ρ), t[key]? = some row → live row = true →
    ∃ e : OutboxEvent, key = e.id.text ∧ decode (key, row) = .ok e ∧ 0 ≤ stamp row
  entry : ∀ (due : UInt64) (e : OutboxEvent), o e.id = .live due e ↔
    ∃ row, t[e.id.text]? = some row ∧ live row = true ∧ decode (e.id.text, row) = .ok e ∧
      due = stampOf (stamp row)

namespace Reading
variable {ρ : Type} {stamp : ρ → Int} {live : ρ → Bool}
  {decode : String × ρ → Except StoreError OutboxEvent} {t : ExtTreeMap String ρ} {o : Outbox}

def entryOf (stamp : ρ → Int) (decode : String × ρ → Except StoreError OutboxEvent)
    (kr : String × ρ) : Option (UInt64 × OutboxEvent) :=
  (decode kr).toOption.map fun e => (stampOf (stamp kr.2), e)

theorem entryOf_eq_some {kr : String × ρ} {x : UInt64 × OutboxEvent} :
    entryOf stamp decode kr = some x ↔ decode kr = .ok x.2 ∧ x.1 = stampOf (stamp kr.2) := by
  unfold entryOf
  obtain ⟨due, e⟩ := x
  cases hd : decode kr with
  | error err => simp [Except.toOption]
  | ok f => simp [Except.toOption, and_comm, eq_comm]

/-- Selecting, ordering, cutting and decoding answers as the model's `fetch_due`. -/
theorem dueList (h : Reading stamp live decode t o) (sel : ρ → Bool) (now : UInt64)
    (hsel : ∀ (key : String) (row : ρ), t[key]? = some row →
      (sel row = true ↔ live row = true ∧ stamp row ≤ clampI64 now ∧ stamp row < parkedAsI64)) :
    ∃ l, o.DueList now l ∧
      ∀ n, ((selectOrdered stamp sel t).take n).mapM decode = .ok ((l.take n).map (·.2)) := by
  refine dueList_of_selected (entryOf stamp decode) ?_ ?_
  · rintro ⟨key, row⟩ hmem
    obtain ⟨hget, hs⟩ := mem_selectOrdered.mp hmem
    obtain ⟨hlive, -, hlt⟩ := (hsel key row hget).mp hs
    obtain ⟨e, hk, hd, h₀⟩ := h.row key row hget hlive
    refine ⟨e, hk, hd, entryOf_eq_some.mpr ⟨hd, ?_⟩, h₀, ?_⟩
    · simp only [stampOf, if_pos hlt]
    · unfold parkedAsI64 i64Max at hlt
      simp only
      omega
  · intro due e
    rw [h.entry]
    constructor
    · rintro ⟨⟨row, hget, hlive, hd, rfl⟩, hnow, hne⟩
      obtain ⟨-, -, -, h₀⟩ := h.row _ _ hget hlive
      have hlt := (stampOf_ne_never_iff h₀).mp hne
      rw [stampOf, if_pos hlt, unclampU64_le_iff h₀ (Int.le_of_lt hlt)] at hnow
      exact ⟨_, mem_selectOrdered.mpr ⟨hget, (hsel _ _ hget).mpr ⟨hlive, hnow, hlt⟩⟩,
        entryOf_eq_some.mpr ⟨hd, rfl⟩⟩
    · rintro ⟨⟨key, row⟩, hkr, he⟩
      obtain ⟨hd, hs⟩ := entryOf_eq_some.mp he
      obtain ⟨hget, hselrow⟩ := mem_selectOrdered.mp hkr
      obtain ⟨hlive, hle, hlt⟩ := (hsel _ _ hget).mp hselrow
      obtain ⟨f, hk, hdf, h₀⟩ := h.row _ _ hget hlive
      rw [hdf, Except.ok.injEq] at hd
      simp only at hd hs hk
      subst hd hk hs
      refine ⟨⟨row, hget, hlive, hdf, rfl⟩, ?_, (stampOf_ne_never_iff h₀).mpr hlt⟩
      rw [stampOf, if_pos hlt]
      exact (unclampU64_le_iff h₀ (Int.le_of_lt hlt)).mpr hle

theorem tally {sel : ρ → Bool} (h : Reading stamp live decode t o) (p : UInt64 → Prop)
    (hsel : ∀ (key : String) (row : ρ), t[key]? = some row →
      (sel row = true ↔ live row = true ∧ p (stampOf (stamp row)))) :
    ∃ l, o.Tally p l ∧ Reply.count (.ok (selectCount sel t)) = Outbox.countReply l.length := by
  refine tally_of_selected (entryOf stamp decode) ?_ ?_
  · rintro ⟨key, row⟩ hmem
    obtain ⟨hin, hs⟩ := List.mem_filter.mp hmem
    have hget := ExtTreeMap.mem_toList_iff_getElem?_eq_some.mp hin
    obtain ⟨e, hk, hd, -⟩ := h.row key row hget ((hsel key row hget).mp hs).1
    exact ⟨_, e, hk, entryOf_eq_some.mpr ⟨hd, rfl⟩⟩
  · intro due e
    rw [h.entry]
    constructor
    · rintro ⟨⟨row, hget, hlive, hd, rfl⟩, hp⟩
      refine ⟨(e.id.text, row), List.mem_filter.mpr ⟨?_, (hsel _ _ hget).mpr ⟨hlive, hp⟩⟩, ?_⟩
      · exact ExtTreeMap.mem_toList_iff_getElem?_eq_some.mpr hget
      · exact entryOf_eq_some.mpr ⟨hd, rfl⟩
    · rintro ⟨⟨key, row⟩, hkr, he⟩
      obtain ⟨hd, hs⟩ := entryOf_eq_some.mp he
      obtain ⟨hin, hselrow⟩ := List.mem_filter.mp hkr
      have hget := ExtTreeMap.mem_toList_iff_getElem?_eq_some.mp hin
      obtain ⟨hlive, hp⟩ := (hsel _ _ hget).mp hselrow
      obtain ⟨f, hk, hdf, -⟩ := h.row _ _ hget hlive
      rw [hdf, Except.ok.injEq] at hd
      simp only at hd hs hk
      subst hd hk hs
      exact ⟨⟨row, hget, hlive, hdf, rfl⟩, hp⟩

end Reading
end OutboxKit
