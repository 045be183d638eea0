import OutboxKit.Lib.Machine
import OutboxKit.Lib.LexCode

/-! The event envelope and its identifier. An identifier is sixteen bytes in byte
order; its storage form is the hyphenated lower-case text, and the two orders
agree, so a text column sorts as the in-process index does. -/
namespace OutboxKit
open Std

/-- A UUID, most significant byte first. -/
structure Uuid where
  bytes : List UInt8
  size : bytes.length = 16
deriving DecidableEq

structure EventId where
  uuid : Uuid
deriving DecidableEq

/-- The derived order of the identifier is the byte order of the UUID. -/
instance : Ord EventId := ⟨fun a b => compare a.uuid.bytes b.uuid.bytes⟩

theorem EventId.ext_bytes {a b : EventId} (h : a.uuid.bytes = b.uuid.bytes) : a = b := by
  cases a with | mk u => cases u; cases b with | mk v => cases v; simp_all

instance : TransOrd EventId where
  eq_swap {a b} := OrientedOrd.eq_swap (a := a.uuid.bytes) (b := b.uuid.bytes)
  isLE_trans {a b c} := TransOrd.isLE_trans (a := a.uuid.bytes) (b := b.uuid.bytes)
    (c := c.uuid.bytes)

instance : LawfulEqOrd EventId where
  compare_self {a} := ReflOrd.compare_self (a := a.uuid.bytes)
  eq_of_compare h := EventId.ext_bytes (LawfulEqOrd.eq_of_compare h)

def hexDigit (n : Nat) : Char := if n < 10 then Char.ofNat (48+n) else Char.ofNat (87+n)

def hexByte (b : UInt8) : List Char := [hexDigit (b.toNat/16), hexDigit (b.toNat%16)]

/-- `Uuid::hyphenated`: 8-4-4-4-12 lower-case hexadecimal. -/
def Uuid.hyphenated (u : Uuid) : String :=
  String.ofList (LexCode.grouped hexByte '-' [4, 2, 2, 2] u.bytes)

def EventId.text (id : EventId) : String := id.uuid.hyphenated

theorem hexDigit_lt {m n : Nat} (hn : n < 16) (h : m < n) : hexDigit m < hexDigit n := by
  have table : ∀ n : Fin 16, ∀ m : Fin 16, m < n → hexDigit m < hexDigit n := by decide
  exact table ⟨n, hn⟩ ⟨m, by omega⟩ h

theorem hexByte_lt (b c : UInt8) (h : compare b c = .lt) : hexByte b < hexByte c := by
  have hbc : b.toNat < c.toNat := UInt8.lt_iff_toNat_lt.mp (LawfulLTCmp.eq_lt_iff_lt.mp h)
  have hc := c.toNat_lt
  rw [hexByte, hexByte, List.cons_lt_cons_iff]
  rcases Nat.lt_or_ge (b.toNat/16) (c.toNat/16) with hd | hd
  · exact Or.inl (hexDigit_lt (by omega) hd)
  · have he : b.toNat/16 = c.toNat/16 := by omega
    refine Or.inr ⟨by rw [he], List.cons_lt_cons_iff.mpr (Or.inl ?_)⟩
    exact hexDigit_lt (by omega) (by omega)

theorem EventId.text_lt {a b : EventId} (h : compare a b = .lt) : a.text < b.text := by
  rw [String.lt_iff_toList_lt, text, text, Uuid.hyphenated, Uuid.hyphenated,
    String.toList_ofList, String.toList_ofList]
  exact LexCode.grouped_lt 2 (fun _ => rfl) hexByte_lt _ (by rw [a.uuid.size, b.uuid.size]) h

theorem EventId.compare_text (a b : EventId) : compare a.text b.text = compare a b := by
  cases h : compare a b with
  | lt => exact LawfulLTCmp.eq_lt_iff_lt.mpr (text_lt h)
  | eq => rw [LawfulEqOrd.eq_of_compare h, ReflOrd.compare_self]
  | gt =>
    have hba : compare b a = .lt := OrientedCmp.lt_of_gt h
    exact OrientedCmp.gt_of_lt (LawfulLTCmp.eq_lt_iff_lt.mpr (text_lt hba))

theorem EventId.text_inj {a b : EventId} : a.text = b.text ↔ a = b := by
  refine ⟨fun h => ?_, fun h => h ▸ rfl⟩
  have hc := compare_text a b
  rw [h, ReflOrd.compare_self] at hc
  exact LawfulEqOrd.eq_of_compare hc.symm

/-- The UUID crate's parser, of which the kit relies on one thing: it reads
back the hyphenated form. -/
structure UuidCrate where
  parseStr : String → Option Uuid
  parse_hyphenated : ∀ u, parseStr u.hyphenated = some u

inductive EventError where
  | invalidTopic (topic : String)
  | invalidId (input : String)
deriving DecidableEq, Repr

def EventId.parse (U : UuidCrate) (input : String) : Except EventError EventId :=
  match U.parseStr input with
  | some u => .ok ⟨u⟩
  | none => .error (.invalidId input)

@[simp] theorem EventId.parse_text (U : UuidCrate) (id : EventId) :
    EventId.parse U id.text = .ok id := by
  rw [EventId.parse, text, U.parse_hyphenated]

section Parser

def hexValue (c : Char) : Nat := if c.toNat < 58 then c.toNat-48 else c.toNat-87

def unhex : List Char → List UInt8
  | a::b::rest => UInt8.ofNat (16*hexValue a+hexValue b)::unhex rest
  | _ => []

theorem hexValue_hexDigit {n : Nat} (h : n < 16) : hexValue (hexDigit n) = n := by
  have table : ∀ n : Fin 16, hexValue (hexDigit n) = n := by decide
  exact table ⟨n, h⟩

theorem unhex_flatMap (l : List UInt8) : unhex (l.flatMap hexByte) = l := by
  induction l with
  | nil => rfl
  | cons b l ih =>
    have hb := b.toNat_lt
    rw [List.flatMap_cons]
    change unhex (hexDigit (b.toNat/16)::hexDigit (b.toNat%16)::l.flatMap hexByte) = b::l
    rw [unhex, ih, hexValue_hexDigit (by omega), hexValue_hexDigit (by omega),
      Nat.div_add_mod, UInt8.ofNat_toNat]

theorem hyphen_not_mem_hexByte (b : UInt8) : '-' ∉ hexByte b := by
  have table : ∀ n : Fin 16, '-' ≠ hexDigit n := by decide
  have hb := b.toNat_lt
  have hhi := table ⟨b.toNat/16, by omega⟩
  have hlo := table ⟨b.toNat%16, by omega⟩
  simp [hexByte, hhi, hlo]

/-- A parser that reads the hyphenated form and nothing else. -/
def UuidCrate.hyphenatedOnly : UuidCrate where
  parseStr s :=
    if h : (unhex (s.toList.filter (· ≠ '-'))).length = 16 then
      if (Uuid.mk _ h).hyphenated = s then some ⟨_, h⟩ else none
    else none
  parse_hyphenated u := by
    have hbytes : unhex (u.hyphenated.toList.filter (· ≠ '-')) = u.bytes := by
      rw [Uuid.hyphenated, String.toList_ofList,
        LexCode.filter_grouped hyphen_not_mem_hexByte, unhex_flatMap]
    cases u with | mk bs hs =>
      simp only at hbytes
      simp only [hbytes, hs, dite_true, if_true]

end Parser

/-- `BTreeMap<String, String>`. -/
abbrev Headers := ExtTreeMap String String

structure OutboxEvent where
  id : EventId
  topic : String
  payload : List UInt8
  headers : Headers
  createdAt : UInt64
  attempts : UInt32
  lastError : Option String
deriving DecidableEq

def utf8 (s : String) : List UInt8 := s.toByteArray.data.toList

/-- `b'a'..=b'z' | b'0'..=b'9' | b'_' | b'.' | b'-'`. -/
def topicByte (b : UInt8) : Bool :=
  (97 ≤ b && b ≤ 122) || (48 ≤ b && b ≤ 57) || b == 95 || b == 46 || b == 45

def topicValid (topic : String) : Bool :=
  decide (1 ≤ topic.utf8ByteSize ∧ topic.utf8ByteSize ≤ 128) && (utf8 topic).all topicByte

def validateTopic (topic : String) : Except EventError Unit :=
  if topicValid topic then .ok () else .error (.invalidTopic topic)

def EventId.ofByte (b : UInt8) : EventId := ⟨⟨List.replicate 15 0++[b], rfl⟩⟩

def OutboxEvent.sample (b : UInt8) (createdAt : UInt64) : OutboxEvent where
  id := .ofByte b
  topic := "orders"
  payload := [1]
  headers := ∅
  createdAt := createdAt
  attempts := 0
  lastError := none

def OutboxEvent.validate (e : OutboxEvent) : Except EventError Unit := validateTopic e.topic

end OutboxKit
