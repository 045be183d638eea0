import OutboxKit.Store
import OutboxKit.Lib.Ordered

/-! What an outbox is for, independently of how a store lays it out. Each
identifier is unknown, live with a due stamp and an envelope, or dispatched;
`fetch_due` lists the due live events by stamp and identifier, and the counts
split the live ones by whether they are parked. A store refines this model when
its state can be read as one and its calls do what the model does. -/
namespace OutboxKit
open Std Machine Ordered

inductive Entry where
  | absent
  | live (stamp : UInt64) (event : OutboxEvent)
  | dispatched
deriving DecidableEq

abbrev Outbox := EventId → Entry

namespace Outbox

def append (o : Outbox) (stamp : UInt64) (e : OutboxEvent) : Outbox :=
  match o e.id with
  | .absent => Function.update o e.id (.live stamp e)
  | _ => o

def markDispatched (o : Outbox) (id : EventId) : Outbox := Function.update o id .dispatched

def markFailed (o : Outbox) (id : EventId) (error : String) (retryAt : UInt64) : Outbox :=
  match o id with
  | .live _ e => Function.update o id (.live retryAt (e.failed error))
  | _ => o

theorem append_absent {o : Outbox} {stamp : UInt64} {e : OutboxEvent} (h : o e.id = .absent) :
    o.append stamp e = Function.update o e.id (.live stamp e) := by
  rw [append, h]

theorem append_known {o : Outbox} {stamp : UInt64} {e : OutboxEvent} (h : o e.id ≠ .absent) :
    o.append stamp e = o := by
  unfold append
  split
  · rename_i ha
    exact absurd ha h
  · rfl

theorem append_other {o : Outbox} {stamp : UInt64} {e : OutboxEvent} {k : EventId}
    (h : k ≠ e.id) : o.append stamp e k = o k := by
  unfold append
  cases o e.id with
  | absent => exact Function.update_of_ne h _ _
  | live t f => rfl
  | dispatched => rfl

theorem markFailed_live {o : Outbox} {id : EventId} {t : UInt64} {e : OutboxEvent}
    (h : o id = .live t e) (error : String) (retryAt : UInt64) :
    o.markFailed id error retryAt = Function.update o id (.live retryAt (e.failed error)) := by
  rw [markFailed, h]

theorem markFailed_not_live {o : Outbox} {id : EventId} (h : ∀ t e, o id ≠ .live t e)
    (error : String) (retryAt : UInt64) : o.markFailed id error retryAt = o := by
  unfold markFailed
  split
  · rename_i ht
    exact absurd ht (h _ _)
  · rfl

theorem markFailed_other {o : Outbox} {id k : EventId} (h : k ≠ id) (error : String)
    (retryAt : UInt64) : o.markFailed id error retryAt k = o k := by
  unfold markFailed
  cases o id with
  | live t e => exact Function.update_of_ne h _ _
  | absent => rfl
  | dispatched => rfl

def Filed (o : Outbox) : Prop := ∀ id stamp e, o id = .live stamp e → e.id = id

/-- The due events, each with its stamp, in dispatch order. -/
structure DueList (o : Outbox) (now : UInt64) (l : List (UInt64 × OutboxEvent)) : Prop where
  sorted : l.Pairwise fun x y => pairCmp (x.1, x.2.id) (y.1, y.2.id) = .lt
  mem_iff : ∀ stamp e, (stamp, e) ∈ l ↔ o e.id = .live stamp e ∧ stamp ≤ now ∧ stamp ≠ never

/-- The live events whose stamp satisfies `p`, each once. -/
structure Tally (o : Outbox) (p : UInt64 → Prop) (l : List (UInt64 × OutboxEvent)) : Prop where
  nodup : l.Nodup
  mem_iff : ∀ stamp e, (stamp, e) ∈ l ↔ o e.id = .live stamp e ∧ p stamp

theorem DueList.unique {o : Outbox} {now : UInt64} {l l' : List (UInt64 × OutboxEvent)}
    (h : DueList o now l) (h' : DueList o now l') : l = l' := by
  refine eq_of_mem_iff (fun x : UInt64 × OutboxEvent => (x.1, x.2.id))
    h.sorted h'.sorted ?_
  rintro ⟨stamp, e⟩
  rw [h.mem_iff, h'.mem_iff]

theorem Tally.length_unique {o : Outbox} {p : UInt64 → Prop} {l l' : List (UInt64 × OutboxEvent)}
    (h : Tally o p l) (h' : Tally o p l') : l.length = l'.length := by
  refine ((List.perm_ext_iff_of_nodup h.nodup h'.nodup).mpr ?_).length_eq
  rintro ⟨stamp, e⟩
  rw [h.mem_iff, h'.mem_iff]

theorem nodup_ids {o : Outbox} {l : List (UInt64 × OutboxEvent)} (h : l.Nodup)
    (hlive : ∀ stamp e, (stamp, e) ∈ l → o e.id = .live stamp e) :
    (l.map fun x => x.2.id).Nodup := by
  refine List.Nodup.map_on ?_ h
  rintro ⟨t, e⟩ he ⟨u, f⟩ hf hid
  have ht := hlive t e he
  simp only at hid
  rw [hid, hlive u f hf] at ht
  cases ht
  rfl

theorem DueList.nodup_ids {o : Outbox} {now : UInt64} {l : List (UInt64 × OutboxEvent)}
    (h : DueList o now l) : (l.map fun x => x.2.id).Nodup := by
  apply Outbox.nodup_ids (o := o)
  · exact nodup_of_pairwise (fun x : UInt64 × OutboxEvent => (x.1, x.2.id)) h.sorted
  · exact fun stamp e hmem => ((h.mem_iff stamp e).mp hmem).1

theorem Tally.nodup_ids {o : Outbox} {p : UInt64 → Prop} {l : List (UInt64 × OutboxEvent)}
    (h : Tally o p l) : (l.map fun x => x.2.id).Nodup :=
  Outbox.nodup_ids h.nodup fun stamp e hmem => ((h.mem_iff stamp e).mp hmem).1

def countReply (n : Nat) : Reply := .count (.ok ((tryU64OfNat n).getD u64Max))

/-- The model's answer to a call. The two letter calls are outside it. -/
def Answers (o : Outbox) : Call → Reply → Outbox → Prop
  | .append e, r, o' =>
    if topicValid e.topic then r = .done (.ok ()) ∧ o' = o.append e.createdAt e
    else r = .done (.error (.invalidTopic e.topic)) ∧ o' = o
  | .fetchDue limit now, r, o' => o' = o ∧
    ∃ l, DueList o now l ∧ r = .events (.ok ((l.take limit.toNat).map (·.2)))
  | .markDispatched _ id, r, o' => r = .done (.ok ()) ∧ o' = o.markDispatched id
  | .markFailed id error retryAt, r, o' =>
    r = .done (.ok ()) ∧ o' = o.markFailed id error retryAt
  | .pendingCount, r, o' => o' = o ∧ ∃ l, Tally o (· ≠ never) l ∧ r = countReply l.length
  | .parkedCount, r, o' => o' = o ∧ ∃ l, Tally o (· = never) l ∧ r = countReply l.length
  | _, _, _ => False

/-- The model leaves no choice: one call has one answer and one outcome. -/
theorem Answers.functional {o o₁ o₂ : Outbox} {c : Call} {r₁ r₂ : Reply}
    (h₁ : o.Answers c r₁ o₁) (h₂ : o.Answers c r₂ o₂) : r₁ = r₂ ∧ o₁ = o₂ := by
  cases c with
  | append e =>
    simp only [Answers] at h₁ h₂
    by_cases ht : topicValid e.topic = true
    · rw [if_pos ht] at h₁ h₂
      exact ⟨h₁.1.trans h₂.1.symm, h₁.2.trans h₂.2.symm⟩
    · rw [if_neg ht] at h₁ h₂
      exact ⟨h₁.1.trans h₂.1.symm, h₁.2.trans h₂.2.symm⟩
  | fetchDue limit now =>
    obtain ⟨he₁, l₁, hl₁, hr₁⟩ := h₁
    obtain ⟨he₂, l₂, hl₂, hr₂⟩ := h₂
    rw [hr₁, hr₂, hl₁.unique hl₂]
    exact ⟨rfl, he₁.trans he₂.symm⟩
  | markDispatched clock id => exact ⟨h₁.1.trans h₂.1.symm, h₁.2.trans h₂.2.symm⟩
  | markFailed id error retryAt => exact ⟨h₁.1.trans h₂.1.symm, h₁.2.trans h₂.2.symm⟩
  | pendingCount =>
    obtain ⟨he₁, l₁, hl₁, hr₁⟩ := h₁
    obtain ⟨he₂, l₂, hl₂, hr₂⟩ := h₂
    rw [hr₁, hr₂, hl₁.length_unique hl₂]
    exact ⟨rfl, he₁.trans he₂.symm⟩
  | parkedCount =>
    obtain ⟨he₁, l₁, hl₁, hr₁⟩ := h₁
    obtain ⟨he₂, l₂, hl₂, hr₂⟩ := h₂
    rw [hr₁, hr₂, hl₁.length_unique hl₂]
    exact ⟨rfl, he₁.trans he₂.symm⟩
  | deadLetter clock e reason => exact h₁.elim
  | deadLetters limit => exact h₁.elim

end Outbox

/-- A store whose calls do what the model does. `stamp` and `norm` say how the
store keeps a stamp and an envelope; `Accepts` and `Room` say when an append and
a recorded failure go through. -/
structure Refinement {σ : Type} (S : OutboxStore σ) where
  Valid : σ → Prop
  entry : σ → Outbox
  stamp : UInt64 → UInt64
  norm : OutboxEvent → OutboxEvent
  Accepts : OutboxEvent → Prop
  Room : σ → EventId → String → Prop
  norm_id : ∀ e, (norm e).id = e.id
  filed : ∀ s, Valid s → (entry s).Filed
  append_ok : ∀ s e, Valid s → Accepts e →
    (S.append e s).1 = .ok () ∧ Valid (S.append e s).2 ∧
      entry (S.append e s).2 = (entry s).append (stamp e.createdAt) (norm e)
  append_invalid : ∀ s e, topicValid e.topic = false →
    S.append e s = (.error (.invalidTopic e.topic), s)
  fetchDue_ok : ∀ s limit now, Valid s → ∃ l n, (entry s).DueList now l ∧
    (n = limit.toNat ∨ 2^63 ≤ n+1 ∧ 2^63 ≤ limit.toNat) ∧
      S.fetchDue limit now s = .ok ((l.take n).map (·.2))
  markDispatched_ok : ∀ s clock id, Valid s → entry s id ≠ .absent →
    (S.markDispatched clock id s).1 = .ok () ∧ Valid (S.markDispatched clock id s).2 ∧
      entry (S.markDispatched clock id s).2 = (entry s).markDispatched id
  markFailed_ok : ∀ s id error retryAt, Valid s → Room s id error →
    (S.markFailed id error retryAt s).1 = .ok () ∧ Valid (S.markFailed id error retryAt s).2 ∧
      entry (S.markFailed id error retryAt s).2 = (entry s).markFailed id error (stamp retryAt)
  pendingCount_ok : ∀ s, Valid s → ∃ l, (entry s).Tally (· ≠ never) l ∧
    Reply.count (S.pendingCount s) = Outbox.countReply l.length
  parkedCount_ok : ∀ s, Valid s → ∃ l, (entry s).Tally (· = never) l ∧
    Reply.count (S.parkedCount s) = Outbox.countReply l.length

namespace Refinement
variable {σ : Type} {S : OutboxStore σ} (R : Refinement S)

/-- Outside its preconditions the store refuses and changes nothing. -/
structure Total : Prop where
  append_refused : ∀ s e, ¬R.Accepts e → ∃ err, S.append e s = (.error err, s)
  markFailed_refused : ∀ s id error retryAt, R.Valid s → ¬R.Room s id error →
    ∃ err, S.markFailed id error retryAt s = (.error err, s)

/-- The precondition under which a call follows the model exactly. A limit past
the signed range is cut there, which shows only in a list as long. -/
def Fits (s : σ) : Call → Prop
  | .append e => topicValid e.topic = true → R.Accepts e ∧
    (R.entry s e.id = .absent → R.stamp e.createdAt = e.createdAt ∧ R.norm e = e)
  | .fetchDue limit now => limit.toNat < 2^63 ∨
    ∀ l, (R.entry s).DueList now l → l.length < 2^63
  | .markDispatched _ id => R.entry s id ≠ .absent
  | .markFailed id error retryAt => R.Room s id error ∧ R.stamp retryAt = retryAt
  | .pendingCount | .parkedCount => True
  | _ => False

/-- One call: the store's answer is the model's, and the state stays readable. -/
theorem call_answers {s : σ} {c : Call} (hv : R.Valid s) (hf : R.Fits s c) :
    (R.entry s).Answers c (S.call c s).1 (R.entry (S.call c s).2) ∧ R.Valid (S.call c s).2 := by
  cases c with
  | append e =>
    simp only [Outbox.Answers, OutboxStore.call]
    cases ht : topicValid e.topic with
    | true =>
      obtain ⟨hacc, hnew⟩ := hf ht
      obtain ⟨hok, hv', he⟩ := R.append_ok s e hv hacc
      have hsame : (R.entry s).append (R.stamp e.createdAt) (R.norm e) =
          (R.entry s).append e.createdAt e := by
        by_cases ha : R.entry s e.id = .absent
        · rw [(hnew ha).1, (hnew ha).2]
        · rw [Outbox.append_known (e := R.norm e) (by rwa [R.norm_id]), Outbox.append_known ha]
      rw [hok, he, hsame, if_pos rfl]
      exact ⟨⟨rfl, rfl⟩, hv'⟩
    | false =>
      rw [R.append_invalid s e ht, if_neg (by simp)]
      exact ⟨⟨rfl, rfl⟩, hv⟩
  | fetchDue limit now =>
    obtain ⟨l, n, hl, hn, he⟩ := R.fetchDue_ok s limit now hv
    have htake : l.take n = l.take limit.toNat := by
      rcases hn with rfl | ⟨hn, hlimit⟩
      · rfl
      · have hlen := hf.resolve_left (by omega) l hl
        rw [List.take_of_length_le (by omega), List.take_of_length_le (by omega)]
    exact ⟨⟨rfl, l, hl, by rw [← htake, OutboxStore.call, he]⟩, hv⟩
  | markDispatched clock id =>
    obtain ⟨hok, hv', he⟩ := R.markDispatched_ok s clock id hv hf
    exact ⟨⟨by rw [OutboxStore.call, hok], he⟩, hv'⟩
  | markFailed id error retryAt =>
    obtain ⟨hroom, hstamp⟩ := hf
    obtain ⟨hok, hv', he⟩ := R.markFailed_ok s id error retryAt hv hroom
    rw [hstamp] at he
    exact ⟨⟨by rw [OutboxStore.call, hok], he⟩, hv'⟩
  | pendingCount =>
    obtain ⟨l, hl, he⟩ := R.pendingCount_ok s hv
    exact ⟨⟨rfl, l, hl, he⟩, hv⟩
  | parkedCount =>
    obtain ⟨l, hl, he⟩ := R.parkedCount_ok s hv
    exact ⟨⟨rfl, l, hl, he⟩, hv⟩
  | deadLetter clock e reason => exact hf.elim
  | deadLetters limit => exact hf.elim

/-- Two stores that refine the model answer a call alike from states that read
as the same outbox, and read alike afterwards. -/
theorem call_agrees {τ : Type} {T : OutboxStore τ} (R' : Refinement T) {s : σ} {t : τ} {c : Call}
    (hv : R.Valid s) (hv' : R'.Valid t) (he : R.entry s = R'.entry t)
    (hf : R.Fits s c) (hf' : R'.Fits t c) :
    (S.call c s).1 = (T.call c t).1 ∧ R.entry (S.call c s).2 = R'.entry (T.call c t).2 := by
  have h := (R.call_answers hv hf).1
  have h' := (R'.call_answers hv' hf').1
  rw [he] at h
  exact h.functional h'

end Refinement
end OutboxKit
