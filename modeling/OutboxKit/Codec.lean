import OutboxKit.Error

/-! The headers codec shared by the durable stores: a count, then each key and
value as a length-prefixed blob, in key order. -/
namespace OutboxKit
open Std Machine

def leBytes (n : UInt32) : List UInt8 :=
  [UInt8.ofNat n.toNat, UInt8.ofNat (n.toNat/256), UInt8.ofNat (n.toNat/65536),
    UInt8.ofNat (n.toNat/16777216)]

def ofLeBytes (a b c d : UInt8) : UInt32 :=
  UInt32.ofNat (a.toNat+256*b.toNat+65536*c.toNat+16777216*d.toNat)

def fromUtf8 (bytes : List UInt8) : Option String := String.fromUTF8? ⟨bytes.toArray⟩

def encodeBlob (blob : List UInt8) : Except StoreError (List UInt8) :=
  match tryU32OfNat blob.length with
  | some len => .ok (leBytes len++blob)
  | none => .error (.backend (.kit "header entry too long"))

def encodeEntries : List (String × String) → Except StoreError (List UInt8)
  | [] => .ok []
  | (key, value)::rest => do
    let k ← encodeBlob (utf8 key)
    let v ← encodeBlob (utf8 value)
    let out ← encodeEntries rest
    return k++(v++out)

def encodeHeaders (headers : Headers) : Except StoreError (List UInt8) :=
  match tryU32OfNat headers.size with
  | none => .error (.backend (.kit "too many headers"))
  | some count => do
    let out ← encodeEntries headers.toList
    return leBytes count++out

/-- The cursor is threaded through: what is left of the blob is returned. -/
def readU32 : List UInt8 → Except StoreError (UInt32 × List UInt8)
  | a::b::c::d::rest => .ok (ofLeBytes a b c d, rest)
  | _ => .error (.backend (.kit "corrupt headers blob"))

def readBlob (cursor : List UInt8) : Except StoreError (List UInt8 × List UInt8) := do
  let (len, rest) ← readU32 cursor
  if len.toNat ≤ rest.length then
    return (rest.take len.toNat, rest.drop len.toNat)
  else .error (.backend (.kit "corrupt headers blob"))

def decodeEntries : Nat → List UInt8 → Headers → Except StoreError Headers
  | 0, _, headers => .ok headers
  | n+1, cursor, headers => do
    let (key, rest) ← readBlob cursor
    let (value, rest) ← readBlob rest
    match fromUtf8 key with
    | none => .error (.backend (.kit "corrupt header key"))
    | some key =>
      match fromUtf8 value with
      | none => .error (.backend (.kit "corrupt header value"))
      | some value => decodeEntries n rest (headers.insert key value)

def decodeHeaders (bytes : List UInt8) : Except StoreError Headers := do
  let (count, rest) ← readU32 bytes
  decodeEntries count.toNat rest ∅

/-- Every length the codec writes fits its four-byte field. -/
def HeadersFit (headers : Headers) : Prop :=
  headers.size < 2^32 ∧
    ∀ kv ∈ headers.toList, (utf8 kv.1).length < 2^32 ∧ (utf8 kv.2).length < 2^32

instance (headers : Headers) : Decidable (HeadersFit headers) :=
  inferInstanceAs (Decidable (_ ∧ _))

theorem ofLeBytes_leBytes (n : UInt32) :
    ofLeBytes (UInt8.ofNat n.toNat) (UInt8.ofNat (n.toNat/256)) (UInt8.ofNat (n.toNat/65536))
      (UInt8.ofNat (n.toNat/16777216)) = n := by
  have hn := n.toNat_lt
  have digits : n.toNat%256+256*(n.toNat/256%256)+65536*(n.toNat/65536%256)+
      16777216*(n.toNat/16777216%256) = n.toNat := by omega
  simp only [ofLeBytes, UInt8.toNat_ofNat', Nat.reducePow, digits, UInt32.ofNat_toNat]

theorem readU32_leBytes (n : UInt32) (rest : List UInt8) :
    readU32 (leBytes n++rest) = .ok (n, rest) := by
  simp only [leBytes, List.cons_append, List.nil_append, readU32, ofLeBytes_leBytes]

theorem fromUtf8_utf8 (s : String) : fromUtf8 (utf8 s) = some s := by
  have hbytes : (⟨(utf8 s).toArray⟩ : ByteArray) = s.toByteArray := by
    simp [utf8]
  rw [fromUtf8, hbytes, String.fromUTF8?, dif_pos s.isValidUTF8]
  rfl

theorem utf8_fromUtf8 {bytes : List UInt8} {s : String} (h : fromUtf8 bytes = some s) :
    utf8 s = bytes := by
  unfold fromUtf8 String.fromUTF8? at h
  split at h
  · cases h
    simp [utf8, String.fromUTF8]
  · cases h

theorem encodeBlob_of_fits {blob : List UInt8} (h : blob.length < 2^32) :
    encodeBlob blob = .ok (leBytes (UInt32.ofNat blob.length)++blob) := by
  rw [encodeBlob, tryU32OfNat, if_pos h]

theorem readBlob_append {blob : List UInt8} (h : blob.length < 2^32) (rest : List UInt8) :
    readBlob (leBytes (UInt32.ofNat blob.length)++blob++rest) = .ok (blob, rest) := by
  have hlen : (UInt32.ofNat blob.length).toNat = blob.length := by
    rw [UInt32.toNat_ofNat', Nat.mod_eq_of_lt h]
  rw [readBlob, List.append_assoc, readU32_leBytes]
  simp [bind, Except.bind, hlen, pure, Except.pure]

theorem decodeEntries_encodeEntries (entries : List (String × String)) (headers : Headers)
    (hfit : ∀ kv ∈ entries, (utf8 kv.1).length < 2^32 ∧ (utf8 kv.2).length < 2^32) :
    ∃ out, encodeEntries entries = .ok out ∧
      decodeEntries entries.length out headers = .ok (headers.insertMany entries) := by
  induction entries generalizing headers with
  | nil => exact ⟨[], rfl, by simp [decodeEntries]⟩
  | cons kv entries ih =>
    obtain ⟨key, value⟩ := kv
    obtain ⟨hk, hv⟩ := hfit (key, value) List.mem_cons_self
    obtain ⟨out, henc, hdec⟩ := ih (headers.insert key value)
      (fun kv hkv => hfit kv (List.mem_cons_of_mem _ hkv))
    have hread := readBlob_append hk
      (leBytes (UInt32.ofNat (utf8 value).length)++utf8 value++out)
    have hread' := readBlob_append hv out
    simp only [List.append_assoc] at hread hread'
    refine ⟨leBytes (UInt32.ofNat (utf8 key).length)++utf8 key ++
      (leBytes (UInt32.ofNat (utf8 value).length)++utf8 value++out), ?_, ?_⟩
    · simp only [encodeEntries, encodeBlob_of_fits hk, encodeBlob_of_fits hv, henc]
      rfl
    · simp only [List.length_cons, decodeEntries, List.append_assoc, hread, hread', bind,
        Except.bind, fromUtf8_utf8, hdec, ExtTreeMap.insertMany_cons]

theorem insertMany_toList (headers : Headers) :
    (∅ : Headers).insertMany headers.toList = headers := by
  apply ExtTreeMap.ext_getElem?
  intro k
  cases hk : headers[k]? with
  | some v =>
    exact ExtTreeMap.getElem?_insertMany_list_of_mem (ReflCmp.compare_self)
      ExtTreeMap.distinct_keys_toList (ExtTreeMap.mem_toList_iff_getElem?_eq_some.mpr hk)
  | none =>
    rw [ExtTreeMap.getElem?_insertMany_list_of_contains_eq_false]
    · simp
    · rw [← Bool.not_eq_true, List.contains_iff_mem]
      intro hmem
      obtain ⟨kv, hkv, rfl⟩ := List.mem_map.mp hmem
      rw [ExtTreeMap.mem_toList_iff_getElem?_eq_some.mp (show (kv.1, kv.2) ∈ _ from hkv)] at hk
      exact Option.some_ne_none _ hk

theorem decode_encode_headers {headers : Headers} (h : HeadersFit headers) :
    ∃ out, encodeHeaders headers = .ok out ∧ decodeHeaders out = .ok headers := by
  obtain ⟨out, henc, hdec⟩ := decodeEntries_encodeEntries headers.toList ∅ h.2
  have hsize : (UInt32.ofNat headers.size).toNat = headers.toList.length := by
    rw [UInt32.toNat_ofNat', Nat.mod_eq_of_lt h.1, ExtTreeMap.length_toList]
  refine ⟨leBytes (UInt32.ofNat headers.size)++out, ?_, ?_⟩
  · rw [encodeHeaders, tryU32OfNat, if_pos h.1]
    simp only [henc]
    rfl
  · rw [decodeHeaders, readU32_leBytes]
    simp only [bind, Except.bind, hsize, hdec, insertMany_toList]

theorem fits_of_encodeBlob {blob out : List UInt8} (h : encodeBlob blob = .ok out) :
    blob.length < 2^32 := by
  by_contra hlen
  rw [encodeBlob, tryU32OfNat, if_neg hlen] at h
  cases h

theorem fits_of_encodeEntries {entries : List (String × String)} {out : List UInt8}
    (h : encodeEntries entries = .ok out) :
    ∀ kv ∈ entries, (utf8 kv.1).length < 2^32 ∧ (utf8 kv.2).length < 2^32 := by
  induction entries generalizing out with
  | nil => simp
  | cons kv entries ih =>
    obtain ⟨key, value⟩ := kv
    simp only [encodeEntries, bind, Except.bind] at h
    split at h
    · cases h
    · rename_i k hk
      split at h
      · cases h
      · rename_i v hv
        split at h
        · cases h
        · rename_i rest hrest
          intro kv hkv
          rcases List.mem_cons.mp hkv with rfl | hkv
          · exact ⟨fits_of_encodeBlob hk, fits_of_encodeBlob hv⟩
          · exact ih hrest kv hkv

/-- Past its bounds the codec refuses rather than write a short length. -/
theorem encode_headers_error {headers : Headers} (h : ¬HeadersFit headers) :
    ∃ err, encodeHeaders headers = .error err := by
  cases henc : encodeHeaders headers with
  | error err => exact ⟨err, rfl⟩
  | ok out =>
    refine absurd ?_ h
    unfold encodeHeaders tryU32OfNat at henc
    split at henc
    · cases henc
    · rename_i count hcount
      simp only [bind, Except.bind] at henc
      split at henc
      · cases henc
      · rename_i rest hrest
        refine ⟨?_, fits_of_encodeEntries hrest⟩
        by_contra hsize
        rw [if_neg hsize] at hcount
        cases hcount

theorem decodeHeaders_of_encode {headers : Headers} {out : List UInt8}
    (h : encodeHeaders headers = .ok out) : decodeHeaders out = .ok headers := by
  by_cases hfit : HeadersFit headers
  · obtain ⟨blob, henc, hdec⟩ := decode_encode_headers hfit
    rw [henc] at h
    cases h
    exact hdec
  · obtain ⟨err, henc⟩ := encode_headers_error hfit
    rw [henc] at h
    cases h

end OutboxKit
