import OutboxKit.Codec
import OutboxKit.Backoff
import OutboxKit.Lib.Trace

/-! The storage contract: truncation of diagnostics, the column encodings the
durable stores share, and the store interface as a machine that answers calls. -/
namespace OutboxKit
open Machine

def maxReasonBytes : Nat := 1024
def maxErrorBytes : Nat := 1024

/-- `str::is_char_boundary`: an end of the text, or a byte that does not continue
a character. -/
def isCharBoundary (s : String) (i : Nat) : Bool :=
  if i = 0 || i = s.utf8ByteSize then true
  else match (utf8 s)[i]? with
    | some b => !(128 ≤ b && b < 192)
    | none => false

/-- `while cut > 0 && !is_char_boundary(cut) { cut -= 1 }`. -/
def scanBack (s : String) : Nat → Nat
  | 0 => 0
  | n+1 => if isCharBoundary s (n+1) then n+1 else scanBack s n

def strPrefix (s : String) (cut : Nat) : Option String :=
  if isCharBoundary s cut then fromUtf8 ((utf8 s).take cut) else none

def truncateTo (max : Nat) (s : String) : String :=
  if s.utf8ByteSize ≤ max then s else (strPrefix s (scanBack s max)).getD ""

def truncateReason : String → String := truncateTo maxReasonBytes
def truncateError : String → String := truncateTo maxErrorBytes

/-- U+0000 occurs in the text; it is the only character with a zero byte. -/
def hasNul (s : String) : Bool := (utf8 s).contains 0

theorem utf8_ofList (l : List Char) : utf8 (String.ofList l) = l.flatMap String.utf8EncodeChar := by
  simp [utf8, List.utf8Encode]

theorem EventId.hasNul_text (id : EventId) : hasNul id.text = false := by
  have table : ∀ n : Fin 16, 0 ∉ String.utf8EncodeChar (hexDigit n) := by decide
  rw [hasNul, ← Bool.not_eq_true, List.contains_iff_mem, text, Uuid.hyphenated, utf8_ofList]
  intro h
  obtain ⟨c, hc, h0⟩ := List.mem_flatMap.mp h
  rcases LexCode.mem_grouped hc with rfl | ⟨b, -, hb⟩
  · revert h0
    decide
  · have hlt := b.toNat_lt
    rcases List.mem_cons.mp hb with rfl | hb
    · exact table ⟨b.toNat/16, by omega⟩ h0
    · rw [List.mem_singleton.mp hb] at h0
      exact table ⟨b.toNat%16, by omega⟩ h0

theorem hasNul_of_topicValid {topic : String} (h : topicValid topic = true) :
    hasNul topic = false := by
  rw [hasNul, ← Bool.not_eq_true, List.contains_iff_mem]
  intro h0
  have := List.all_eq_true.mp (Bool.and_eq_true_iff.mp h).2 0 h0
  revert this
  decide

/-- Truncation keeps a prefix, so it brings in no new byte. -/
theorem hasNul_truncateTo {max : Nat} {s : String} (h : hasNul s = false) :
    hasNul (truncateTo max s) = false := by
  unfold truncateTo
  split
  · exact h
  · cases hp : strPrefix s (scanBack s max) with
    | none => rfl
    | some t =>
      have ht : fromUtf8 ((utf8 s).take (scanBack s max)) = some t := by
        unfold strPrefix at hp
        split at hp
        · exact hp
        · cases hp
      rw [Option.getD_some, hasNul, utf8_fromUtf8 ht]
      rw [hasNul, ← Bool.not_eq_true, List.contains_iff_mem] at h
      rw [← Bool.not_eq_true, List.contains_iff_mem]
      exact fun hmem => h (List.mem_of_mem_take hmem)

def OutboxEvent.failed (e : OutboxEvent) (error : String) : OutboxEvent :=
  { e with attempts := satAdd32 e.attempts 1, lastError := some (truncateError error) }

@[simp] theorem OutboxEvent.failed_id (e : OutboxEvent) (error : String) :
    (e.failed error).id = e.id := rfl

def clampI64 (value : UInt64) : Int := (tryI64 value).getD i64Max

def unclampU64 (value : Int) : UInt64 := (tryU64 value).getD u64Max

/-- `never` as the column holds it. -/
def parkedAsI64 : Int := i64Max

theorem clampI64_eq (v : UInt64) : clampI64 v = min (v.toNat : Int) i64Max := by
  have hv := v.toNat_lt
  unfold clampI64 tryI64 i64Max
  split
  · rw [Option.getD_some]
    omega
  · rw [Option.getD_none]
    omega

theorem clampI64_nonneg (v : UInt64) : 0 ≤ clampI64 v := by
  rw [clampI64_eq, i64Max]
  omega

theorem unclampU64_clampI64 {v : UInt64} (h : v.toNat < 2^63) : unclampU64 (clampI64 v) = v := by
  have hv := v.toNat_lt
  have hc : clampI64 v = v.toNat := by
    rw [clampI64_eq, i64Max]
    omega
  rw [unclampU64, hc, tryU64_natCast, tryU64OfNat, if_pos hv, Option.getD_some,
    UInt64.ofNat_toNat]

/-- The store interface. Reads answer without changing the state; `clock` is the
wall-clock reading a call takes on its own. The dead-letter pair has the
interface's no-op default. -/
structure OutboxStore (σ : Type) where
  append : OutboxEvent → σ → Except StoreError Unit × σ
  fetchDue (limit nowMs : UInt64) : σ → Except StoreError (List OutboxEvent)
  markDispatched (clock : UInt64) (id : EventId) : σ → Except StoreError Unit × σ
  markFailed (id : EventId) (error : String) (retryAtMs : UInt64) : σ → Except StoreError Unit × σ
  pendingCount : σ → Except StoreError UInt64
  parkedCount : σ → Except StoreError UInt64
  deadLetter (clock : UInt64) (event : OutboxEvent) (reason : String) :
      σ → Except StoreError Unit × σ := fun s => (.ok (), s)
  deadLetters (limit : UInt64) : σ → Except StoreError (List (OutboxEvent × String)) :=
    fun _ => .ok []

inductive Call where
  | append (event : OutboxEvent)
  | fetchDue (limit nowMs : UInt64)
  | markDispatched (clock : UInt64) (id : EventId)
  | markFailed (id : EventId) (error : String) (retryAtMs : UInt64)
  | pendingCount
  | parkedCount
  | deadLetter (clock : UInt64) (event : OutboxEvent) (reason : String)
  | deadLetters (limit : UInt64)

def Call.target : Call → Option EventId
  | .append e => some e.id
  | .markDispatched _ id => some id
  | .markFailed id _ _ => some id
  | .deadLetter _ e _ => some e.id
  | _ => none

inductive Reply where
  | done (result : Except StoreError Unit)
  | events (result : Except StoreError (List OutboxEvent))
  | count (result : Except StoreError UInt64)
  | letters (result : Except StoreError (List (OutboxEvent × String)))

def OutboxStore.call {σ : Type} (S : OutboxStore σ) : Call → σ → Reply × σ
  | .append e, s => (.done (S.append e s).1, (S.append e s).2)
  | .fetchDue limit now, s => (.events (S.fetchDue limit now s), s)
  | .markDispatched clock id, s =>
    (.done (S.markDispatched clock id s).1, (S.markDispatched clock id s).2)
  | .markFailed id error retryAt, s =>
    (.done (S.markFailed id error retryAt s).1, (S.markFailed id error retryAt s).2)
  | .pendingCount, s => (.count (S.pendingCount s), s)
  | .parkedCount, s => (.count (S.parkedCount s), s)
  | .deadLetter clock e reason, s =>
    (.done (S.deadLetter clock e reason s).1, (S.deadLetter clock e reason s).2)
  | .deadLetters limit, s => (.letters (S.deadLetters limit s), s)

def OutboxStore.runs {σ : Type} (S : OutboxStore σ) (start : σ) : Trace.System σ Call :=
  ⟨start, fun s c => some (S.call c s).2⟩

end OutboxKit
