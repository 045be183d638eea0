import OutboxKit.DeadLetter

/-! The dead letters as a record. Each identifier has one letter, the one its last
recorded `dead_letter` call wrote; the record lists them by the time of that call.
No other call touches it. -/
namespace OutboxKit
open Std Machine Ordered Trace

/-- A `dead_letter` call, with the time it read. -/
structure Letter where
  clock : UInt64
  event : OutboxEvent
  reason : String

def Letter.shown (x : Letter) : OutboxEvent × String := (x.event, truncateReason x.reason)

/-- Where it stands: the time as the signed column keeps it, then the identifier. -/
def Letter.place (x : Letter) : Int × EventId := (clampI64 x.clock, x.event.id)

/-- One more call with its reply: a letter that was recorded replaces the one before. -/
def Letter.next (id : EventId) (last : Option Letter) : Call × Reply → Option Letter
  | (.deadLetter clock e reason, .done (.ok ())) =>
    if e.id = id then some ⟨clock, e, reason⟩ else last
  | _ => last

def lastLetter (answered : List (Call × Reply)) (id : EventId) : Option Letter :=
  answered.foldl (Letter.next id) none

theorem lastLetter_concat (answered : List (Call × Reply)) (x : Call × Reply) (id : EventId) :
    lastLetter (answered++[x]) id = Letter.next id (lastLetter answered id) x := by
  rw [lastLetter, List.foldl_append]
  rfl

theorem Letter.next_other {c : Call} (h : ∀ clock e reason, c ≠ .deadLetter clock e reason)
    (id : EventId) (last : Option Letter) (reply : Reply) :
    Letter.next id last (c, reply) = last := by
  cases c with
  | deadLetter clock e reason => exact absurd rfl (h clock e reason)
  | append | fetchDue | markDispatched | markFailed | pendingCount | parkedCount | deadLetters =>
    rfl

theorem Letter.next_some (id : EventId) (last : Letter) (x : Call × Reply) :
    ∃ y, Letter.next id (some last) x = some y := by
  unfold Letter.next
  split
  · split
    · exact ⟨_, rfl⟩
    · exact ⟨last, rfl⟩
  · exact ⟨last, rfl⟩

theorem lastLetter_of_mem {answered : List (Call × Reply)} {clock : UInt64} {e : OutboxEvent}
    {reason : String} (h : (.deadLetter clock e reason, .done (.ok ())) ∈ answered) :
    ∃ x, lastLetter answered e.id = some x := by
  induction answered using List.reverseRecOn with
  | nil => simp at h
  | append_singleton answered y ih =>
    rw [lastLetter_concat]
    cases List.mem_append.mp h with
    | inl hmem =>
      obtain ⟨x, hx⟩ := ih hmem
      rw [hx]
      exact Letter.next_some _ _ _
    | inr hmem =>
      rw [← List.mem_singleton.mp hmem, Letter.next, if_pos rfl]
      exact ⟨_, rfl⟩

/-- The letters of a history in their order: one for each identifier that has any. -/
structure IsRecord (answered : List (Call × Reply)) (l : List Letter) : Prop where
  sorted : l.Pairwise fun x y => pairCmp x.place y.place = .lt
  ids : (l.map (·.event.id)).Nodup
  latest : ∀ x, x ∈ l ↔ lastLetter answered x.event.id = some x
  complete : ∀ clock e reason, (.deadLetter clock e reason, .done (.ok ())) ∈ answered →
    ∃ x ∈ l, x.event.id = e.id

theorem limitRows_eq (limit : UInt64) : limitRows limit = min limit.toNat (2^63-1) := by
  unfold limitRows tryI64 i64Max
  split
  · rw [Option.getD_some, Int.toNat_natCast]
    omega
  · rw [Option.getD_none]
    omega

section Table
variable (U : UuidCrate)

/-- What the table holds for an event against the last letter recorded for it. -/
inductive Holds (id : EventId) : Option Letter → Option LetterRow → Prop
  | absent : Holds id none none
  | letter (x : Letter) (row : LetterRow) (hid : x.event.id = id)
      (hstamp : row.deadLetteredAt = clampI64 x.clock)
      (hread : letterFromRow U (id.text, row) = .ok x.shown) : Holds id (some x) (some row)

/-- The table is the record of the calls answered so far. -/
structure Records (answered : List (Call × Reply)) (m : ExtTreeMap String LetterRow) : Prop where
  keyed : Keyed m
  holds : ∀ id : EventId, Holds U id (lastLetter answered id) m[id.text]?

theorem Records.empty : Records U [] ∅ where
  keyed key row h := by simp at h
  holds id := by
    rw [ExtTreeMap.getElem?_empty]
    exact .absent

variable {U} {answered : List (Call × Reply)} {m : ExtTreeMap String LetterRow}

theorem Records.keep (h : Records U answered m) {c : Call} {reply : Reply}
    (hnext : ∀ id last, Letter.next id last (c, reply) = last) :
    Records U (answered++[(c, reply)]) m where
  keyed := h.keyed
  holds id := by
    rw [lastLetter_concat, hnext]
    exact h.holds id

theorem Records.letter (h : Records U answered m) {clock : UInt64} {e : OutboxEvent}
    {reason : String} {row : LetterRow} (hstamp : row.deadLetteredAt = clampI64 clock)
    (hread : letterFromRow U (e.id.text, row) = .ok (e, truncateReason reason)) :
    Records U (answered++[(.deadLetter clock e reason, .done (.ok ()))])
      (m.insert e.id.text row) where
  keyed := h.keyed.insert
  holds id := by
    rw [lastLetter_concat, Letter.next]
    by_cases he : e.id = id
    · subst he
      rw [if_pos rfl, ExtTreeMap.getElem?_insert_self]
      exact .letter _ row rfl hstamp hread
    · rw [if_neg he, ExtTreeMap.getElem?_insert, if_neg (by simp [EventId.text_inj, he])]
      exact h.holds id

theorem Records.row (h : Records U answered m) {key : String} {row : LetterRow}
    (hget : m[key]? = some row) : ∃ x : Letter, key = x.event.id.text ∧
      lastLetter answered x.event.id = some x ∧ row.deadLetteredAt = clampI64 x.clock ∧
      letterFromRow U (key, row) = .ok x.shown := by
  obtain ⟨id, rfl⟩ := h.keyed key row hget
  have hid := h.holds id
  rw [hget] at hid
  cases hlast : lastLetter answered id with
  | none =>
    rw [hlast] at hid
    cases hid
  | some x =>
    rw [hlast] at hid
    cases hid with
    | letter x row hid hstamp hread =>
      subst hid
      exact ⟨x, rfl, hlast, hstamp, hread⟩

theorem Records.of_last (h : Records U answered m) {id : EventId} {x : Letter}
    (hlast : lastLetter answered id = some x) :
    x.event.id = id ∧ ∃ row, m[id.text]? = some row := by
  have hid := h.holds id
  rw [hlast] at hid
  cases hget : m[id.text]? with
  | none =>
    rw [hget] at hid
    cases hid
  | some row =>
    rw [hget] at hid
    cases hid with
    | letter x row hid hstamp hread => exact ⟨hid, row, rfl⟩

def letterRows (m : ExtTreeMap String LetterRow) : List (String × LetterRow) :=
  selectOrdered (·.deadLetteredAt) (fun _ => true) m

def letterOfRow (U : UuidCrate) (answered : List (Call × Reply)) (kr : String × LetterRow) :
    Option Letter :=
  (letterFromRow U kr).toOption.bind fun x => lastLetter answered x.1.id

theorem Records.selected (h : Records U answered m) {kr : String × LetterRow}
    (hmem : kr ∈ letterRows m) : ∃ x : Letter, kr.1 = x.event.id.text ∧
      lastLetter answered x.event.id = some x ∧ kr.2.deadLetteredAt = clampI64 x.clock ∧
      letterFromRow U kr = .ok x.shown ∧ letterOfRow U answered kr = some x := by
  obtain ⟨x, hkey, hlast, hstamp, hread⟩ := h.row (mem_selectOrdered.mp hmem).1
  refine ⟨x, hkey, hlast, hstamp, hread, ?_⟩
  rw [letterOfRow, hread]
  exact hlast

theorem Records.mem_letters (h : Records U answered m) (x : Letter) :
    x ∈ (letterRows m).filterMap (letterOfRow U answered) ↔
      lastLetter answered x.event.id = some x := by
  rw [List.mem_filterMap]
  constructor
  · intro hx
    obtain ⟨kr, hmem, hkr⟩ := hx
    obtain ⟨y, -, hlast, -, -, hy⟩ := h.selected hmem
    rw [hy, Option.some.injEq] at hkr
    rwa [← hkr]
  · intro hlast
    obtain ⟨-, row, hget⟩ := h.of_last hlast
    have hmem : (x.event.id.text, row) ∈ letterRows m := mem_selectOrdered.mpr ⟨hget, rfl⟩
    obtain ⟨y, hkey, hlasty, -, -, hy⟩ := h.selected hmem
    rw [← EventId.text_inj.mp hkey, hlast, Option.some.injEq] at hlasty
    exact ⟨_, hmem, by rw [hy, hlasty]⟩

theorem Records.sorted_letters (h : Records U answered m) :
    ((letterRows m).filterMap (letterOfRow U answered)).Pairwise
      fun x y => pairCmp x.place y.place = .lt := by
  rw [List.pairwise_filterMap]
  refine (selectOrdered_pairwise _ _ m).imp_of_mem ?_
  intro kr kr' hmem hmem' hlt x hx y hy
  obtain ⟨x', hkey, -, hstamp, -, hx'⟩ := h.selected hmem
  obtain ⟨y', hkey', -, hstamp', -, hy'⟩ := h.selected hmem'
  rw [hx', Option.some.injEq] at hx
  rw [hy', Option.some.injEq] at hy
  rw [hkey, hkey', hstamp, hstamp', hx, hy] at hlt
  unfold pairCmp at hlt ⊢
  rwa [EventId.compare_text] at hlt

theorem Records.isRecord (h : Records U answered m) :
    IsRecord answered ((letterRows m).filterMap (letterOfRow U answered)) where
  sorted := h.sorted_letters
  ids := by
    apply List.Nodup.map_on _ (nodup_of_pairwise Letter.place h.sorted_letters)
    intro x hx y hy hid
    have hlast := (h.mem_letters x).mp hx
    have hlasty := (h.mem_letters y).mp hy
    rw [hid, hlasty, Option.some.injEq] at hlast
    exact hlast.symm
  latest := h.mem_letters
  complete clock e reason hmem := by
    obtain ⟨x, hx⟩ := lastLetter_of_mem hmem
    have hid := (h.of_last hx).1
    exact ⟨x, (h.mem_letters x).mpr (by rwa [hid]), hid⟩

/-- The query lists the record: the selected rows, decoded, are its letters in their order. -/
theorem Records.selectLetters_eq (h : Records U answered m) (limit : UInt64) :
    selectLetters U limit m =
      .ok ((((letterRows m).filterMap (letterOfRow U answered)).map Letter.shown).take
        (limitRows limit)) := by
  have hok : ∀ kr ∈ (letterRows m).take (limitRows limit), ∃ y, letterFromRow U kr = .ok y := by
    intro kr hmem
    obtain ⟨x, -, -, -, hread, -⟩ := h.selected (List.mem_of_mem_take hmem)
    exact ⟨_, hread⟩
  have hsome : ∀ kr ∈ letterRows m, (letterOfRow U answered kr).isSome := by
    intro kr hmem
    obtain ⟨x, -, -, -, -, hx⟩ := h.selected hmem
    rw [hx]
    rfl
  rw [selectLetters, ← letterRows, mapM_ok hok, ← List.map_take, ← take_filterMap _ _ _ hsome]
  refine congrArg _ (List.filterMap_congr ?_)
  intro kr hmem
  obtain ⟨x, -, -, -, hread, hx⟩ := h.selected (List.mem_of_mem_take hmem)
  rw [hread, hx]
  rfl

end Table

/-- Which letters a store writes: the row an accepted call leaves shows the envelope it was
handed, when the columns hold its counters, and the list is read off the table. -/
structure Recorder {σ ρ : Type} {S : OutboxStore σ} (L : LetterBox S ρ) (U : UuidCrate) :
    Prop where
  letter : ∀ (s : σ) (clock : UInt64) (e : OutboxEvent) (reason : String),
    e.createdAt.toNat < 2^63 → e.attempts.toNat < 2^31 →
    ((S.deadLetter clock e reason s).1 = .ok () ∧ ∃ row,
      L.letters (S.deadLetter clock e reason s).2 = (L.letters s).insert e.id.text row ∧
      row.deadLetteredAt = clampI64 clock ∧
      letterFromRow U (e.id.text, row) = .ok (e, truncateReason reason)) ∨
    ∃ err, S.deadLetter clock e reason s = (.error err, s)
  listed : ∀ (s : σ) (limit : UInt64), S.deadLetters limit s = selectLetters U limit (L.letters s)

namespace Recorder
variable {σ ρ : Type} {S : OutboxStore σ} {L : LetterBox S ρ} {U : UuidCrate}

theorem letters_other (c : Call) (h : ∀ clock e reason, c ≠ .deadLetter clock e reason) (s : σ) :
    L.letters (S.call c s).2 = L.letters s := by
  cases L.call_turns s c with
  | same c t ht => rw [ht]
  | appended e row t hacc he hl => exact hl
  | marked c id old row t hold he hl => exact hl
  | lettered clock e reason row t he hl => exact absurd rfl (h clock e reason)

/-- The step: every call leaves the table the record of one more call. -/
theorem records_call (R : Recorder L U) {answered : List (Call × Reply)} {s : σ} (c : Call)
    (hfit : ∀ clock e reason, c = .deadLetter clock e reason →
      e.createdAt.toNat < 2^63 ∧ e.attempts.toNat < 2^31)
    (h : Records U answered (L.letters s)) :
    Records U (answered++[(c, (S.call c s).1)]) (L.letters (S.call c s).2) := by
  by_cases hletter : ∃ clock e reason, c = .deadLetter clock e reason
  · obtain ⟨clock, e, reason, rfl⟩ := hletter
    obtain ⟨hcreated, hattempts⟩ := hfit clock e reason rfl
    change Records U (answered++[(_, .done (S.deadLetter clock e reason s).1)])
      (L.letters (S.deadLetter clock e reason s).2)
    cases R.letter s clock e reason hcreated hattempts with
    | inl hok =>
      obtain ⟨hok, row, hl, hstamp, hread⟩ := hok
      rw [hok, hl]
      exact h.letter hstamp hread
    | inr herr =>
      obtain ⟨err, herr⟩ := herr
      rw [herr]
      exact h.keep fun _ _ => rfl
  · have hother : ∀ clock e reason, c ≠ .deadLetter clock e reason := by
      intro clock e reason heq
      exact hletter ⟨clock, e, reason, heq⟩
    rw [letters_other c hother]
    exact h.keep fun id last => Letter.next_other hother id last _

theorem records_after (R : Recorder L U) {start : σ} (hstart : L.letters start = ∅)
    (past : List Call) (hfit : ∀ clock e reason, .deadLetter clock e reason ∈ past →
      e.createdAt.toNat < 2^63 ∧ e.attempts.toNat < 2^31) :
    Records U (transcript S.call start past) (L.letters (after S.call start past)) := by
  induction past using List.reverseRecOn with
  | nil =>
    change Records U [] (L.letters start)
    rw [hstart]
    exact Records.empty U
  | append_singleton past c ih =>
    rw [transcript_concat, after_concat]
    apply R.records_call
    · intro clock e reason hc
      exact hfit clock e reason (by simp [hc])
    · exact ih fun clock e reason hmem => hfit clock e reason (List.mem_append_left _ hmem)

theorem deadLetters_eq (R : Recorder L U) {start : σ} (hstart : L.letters start = ∅)
    (past : List Call) (hfit : ∀ clock e reason, .deadLetter clock e reason ∈ past →
      e.createdAt.toNat < 2^63 ∧ e.attempts.toNat < 2^31) :
    ∃ l, IsRecord (transcript S.call start past) l ∧
      ∀ limit, S.deadLetters limit (after S.call start past) =
        .ok ((l.map Letter.shown).take (min limit.toNat (2^63-1))) := by
  have h := R.records_after hstart past hfit
  refine ⟨_, h.isRecord, ?_⟩
  intro limit
  rw [R.listed, h.selectLetters_eq, limitRows_eq]

end Recorder

theorem letterFromRow_ok {U : UuidCrate} {key : String} {row : LetterRow} {e : OutboxEvent}
    (h : decodeEvent U key row.topic row.payload row.headers row.createdAt row.attempts
      row.lastError = .ok e) : letterFromRow U (key, row) = .ok (e, row.reason) := by
  rw [letterFromRow, h]
  rfl

theorem Sqlite.recorder (U : UuidCrate) : Recorder (Sqlite.letterBox U) U where
  letter t clock e reason hcreated hattempts := by
    cases Sqlite.deadLetter_cases clock e reason t with
    | inl h =>
      obtain ⟨blob, hdec, h⟩ := h
      refine .inl ⟨congrArg Prod.fst h, _, congrArg (·.2.outboxDeadLetters) h, rfl, ?_⟩
      apply letterFromRow_ok
      simp only [Sqlite.letterOf, decodeEvent_ok U e.id _ _ _ _ _ hdec,
        unclampU64_clampI64 hcreated, clampI64_attempts,
        tryU32_natCast (n := e.attempts.toNat) rfl, Option.getD_some]
    | inr h => exact .inr h
  listed _ _ := rfl

theorem Postgres.recorder (U : UuidCrate) : Recorder (Postgres.letterBox U) U where
  letter t clock e reason hcreated hattempts := by
    cases Postgres.deadLetter_cases clock e reason t with
    | inl h =>
      obtain ⟨blob, hdec, h⟩ := h
      refine .inl ⟨congrArg Prod.fst h, _, congrArg (·.2.outboxDeadLetters) h, rfl, ?_⟩
      apply letterFromRow_ok
      simp only [Postgres.letterOf, decodeEvent_ok U e.id _ _ _ _ _ hdec]
      exact congrArg Except.ok (Postgres.norm_eq hcreated hattempts)
    | inr h => exact .inr h
  listed _ _ := rfl

/-- On both durable stores, after any calls in any order, where a call that fails is one
without effect, the dead letters are a latest-wins record: one entry for each event ever
lettered, with the envelope and reason of its last recorded letter, ordered by the time of
that letter as the column keeps it, then by identifier, and cut at the limit. -/
theorem deadLetters_record (U : UuidCrate) (past : List Call)
    (hfit : ∀ clock e reason, .deadLetter clock e reason ∈ past →
      e.createdAt.toNat < 2^63 ∧ e.attempts.toNat ≤ 2^31-1) :
    (∃ l, IsRecord (transcript (Sqlite.store U).call Sqlite.empty past) l ∧
      ∀ limit, Sqlite.deadLetters U limit (after (Sqlite.store U).call Sqlite.empty past) =
        .ok ((l.map Letter.shown).take (min limit.toNat (2^63-1)))) ∧
    ∃ l, IsRecord (transcript (Postgres.store U).call Postgres.empty past) l ∧
      ∀ limit, Postgres.deadLetters U limit (after (Postgres.store U).call Postgres.empty past) =
        .ok ((l.map Letter.shown).take (min limit.toNat (2^63-1))) := by
  have hlt : ∀ clock e reason, .deadLetter clock e reason ∈ past →
      e.createdAt.toNat < 2^63 ∧ e.attempts.toNat < 2^31 := by
    intro clock e reason hmem
    obtain ⟨hcreated, hattempts⟩ := hfit clock e reason hmem
    exact ⟨hcreated, by omega⟩
  exact ⟨(Sqlite.recorder U).deadLetters_eq rfl past hlt,
    (Postgres.recorder U).deadLetters_eq rfl past hlt⟩

/-- Two events lettered by a clock that runs backwards, one of them again, and a retry between. -/
def reLettered : List Call :=
  [.deadLetter 9 (.sample 2 5) "first", .deadLetter 4 (.sample 1 5) "only", .append (.sample 3 5),
    .deadLetter 2 (.sample 2 5) "second"]

theorem reLettered_record :
    (∃ l, IsRecord (transcript (Sqlite.store .hyphenatedOnly).call Sqlite.empty reLettered) l ∧
      ∀ limit, Sqlite.deadLetters .hyphenatedOnly limit
          (after (Sqlite.store .hyphenatedOnly).call Sqlite.empty reLettered) =
        .ok ((l.map Letter.shown).take (min limit.toNat (2^63-1)))) ∧
    ∃ l, IsRecord (transcript (Postgres.store .hyphenatedOnly).call Postgres.empty reLettered) l ∧
      ∀ limit, Postgres.deadLetters .hyphenatedOnly limit
          (after (Postgres.store .hyphenatedOnly).call Postgres.empty reLettered) =
        .ok ((l.map Letter.shown).take (min limit.toNat (2^63-1))) := by
  apply deadLetters_record
  intro clock e reason hmem
  simp only [reLettered, List.mem_cons, Call.deadLetter.injEq, reduceCtorEq, List.not_mem_nil,
    or_false, false_or] at hmem
  obtain ⟨-, rfl, -⟩ | ⟨-, rfl, -⟩ | ⟨-, rfl, -⟩ := hmem
  all_goals exact ⟨by decide, by decide⟩

/-- Past the signed range times read alike: the later letter is listed first. -/
def pastRange : List Call :=
  [.deadLetter 9223372036854775808 (.sample 2 5) "earlier",
    .deadLetter 9223372036854775809 (.sample 1 5) "later"]

theorem pastRange_swapped :
    (Sqlite.deadLetters .hyphenatedOnly 10 (after (Sqlite.store .hyphenatedOnly).call
      Sqlite.empty pastRange)).map (·.map (·.2)) = .ok ["later", "earlier"] ∧
    (Postgres.deadLetters .hyphenatedOnly 10 (after (Postgres.store .hyphenatedOnly).call
      Postgres.empty pastRange)).map (·.map (·.2)) = .ok ["later", "earlier"] := by
  decide +kernel

end OutboxKit
