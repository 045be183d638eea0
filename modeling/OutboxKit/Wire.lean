import OutboxKit.Codec
import OutboxKit.Lib.Ordered

/-! The shape of a headers blob: a count, that many pairs of length-prefixed texts,
and whatever follows. The decoder accepts every blob of this shape; only one
with nothing after the last pair and its keys in order is what the encoder
would have written. -/
namespace OutboxKit
open Std Machine Ordered

def wireText (s : String) : List UInt8 := leBytes (UInt32.ofNat (utf8 s).length)++utf8 s

def wireEntries : List (String × String) → List UInt8
  | [] => []
  | kv::entries => wireText kv.1++(wireText kv.2++wireEntries entries)

def PairFits (kv : String × String) : Prop := (utf8 kv.1).length < 2^32 ∧ (utf8 kv.2).length < 2^32

/-- The blob lists these pairs, and `rest` follows. -/
structure Spells (blob : List UInt8) (entries : List (String × String)) (rest : List UInt8) :
    Prop where
  count : entries.length < 2^32
  fits : ∀ kv ∈ entries, PairFits kv
  bytes : blob = leBytes (UInt32.ofNat entries.length)++(wireEntries entries++rest)

section Reading

theorem leBytes_ofLeBytes (a b c d : UInt8) : leBytes (ofLeBytes a b c d) = [a, b, c, d] := by
  have ha := a.toNat_lt
  have hb := b.toNat_lt
  have hc := c.toNat_lt
  have hd := d.toNat_lt
  have hn : (ofLeBytes a b c d).toNat = a.toNat+256*b.toNat+65536*c.toNat+16777216*d.toNat := by
    rw [ofLeBytes, UInt32.toNat_ofNat', Nat.mod_eq_of_lt (by omega)]
  have byte (x : UInt8) (n : Nat) (h : n%256 = x.toNat) : UInt8.ofNat n = x := by
    apply UInt8.toNat_inj.mp
    rw [UInt8.toNat_ofNat']
    exact h
  rw [leBytes, hn, byte a _ (by omega), byte b _ (by omega), byte c _ (by omega),
    byte d _ (by omega)]

theorem readU32_eq_ok {cursor rest : List UInt8} {n : UInt32} :
    readU32 cursor = .ok (n, rest) ↔ cursor = leBytes n++rest := by
  constructor
  · intro h
    unfold readU32 at h
    split at h
    · cases h
      rw [leBytes_ofLeBytes]
      rfl
    · cases h
  · rintro rfl
    exact readU32_leBytes n rest

theorem readBlob_eq_ok {cursor blob rest : List UInt8} : readBlob cursor = .ok (blob, rest) ↔
    blob.length < 2^32 ∧ cursor = leBytes (UInt32.ofNat blob.length)++(blob++rest) := by
  constructor
  · intro h
    cases hread : readU32 cursor with
    | error err =>
      rw [readBlob, hread] at h
      cases h
    | ok p =>
      obtain ⟨n, tail⟩ := p
      have hlt := n.toNat_lt
      rw [readBlob, hread] at h
      simp only [bind, Except.bind] at h
      split at h
      · rename_i hle
        cases h
        have hlen : (tail.take n.toNat).length = n.toNat := by rw [List.length_take]; omega
        rw [hlen, List.take_append_drop, UInt32.ofNat_toNat]
        exact ⟨hlt, readU32_eq_ok.mp hread⟩
      · cases h
  · rintro ⟨hlen, rfl⟩
    rw [← List.append_assoc]
    exact readBlob_append hlen rest

theorem readText_eq_ok {cursor blob rest : List UInt8} {s : String}
    (h : readBlob cursor = .ok (blob, rest)) (hs : fromUtf8 blob = some s) :
    (utf8 s).length < 2^32 ∧ cursor = wireText s++rest := by
  have hbytes := utf8_fromUtf8 hs
  obtain ⟨hlen, hcursor⟩ := readBlob_eq_ok.mp h
  rw [wireText, hbytes, List.append_assoc]
  exact ⟨hlen, hcursor⟩

theorem readBlob_wireText {s : String} (h : (utf8 s).length < 2^32) (rest : List UInt8) :
    readBlob (wireText s++rest) = .ok (utf8 s, rest) := by
  rw [wireText]
  exact readBlob_append h rest

end Reading

/-- What the decoder's loop accepts, and what it makes of it. -/
theorem decodeEntries_eq_ok {n : Nat} {cursor : List UInt8} {headers out : Headers} :
    decodeEntries n cursor headers = .ok out ↔ ∃ entries rest, entries.length = n ∧
      (∀ kv ∈ entries, PairFits kv) ∧ cursor = wireEntries entries++rest ∧
      out = headers.insertMany entries := by
  induction n generalizing cursor headers with
  | zero =>
    constructor
    · intro h
      cases h
      exact ⟨[], cursor, rfl, by simp, rfl, by simp⟩
    · rintro ⟨entries, rest, hlen, -, -, rfl⟩
      rw [List.length_eq_zero_iff.mp hlen, decodeEntries, ExtTreeMap.insertMany_nil]
  | succ n ih =>
    constructor
    · intro h
      simp only [decodeEntries, bind, Except.bind] at h
      split at h
      · cases h
      · rename_i k hk
        split at h
        · cases h
        · rename_i v hv
          split at h
          · cases h
          · rename_i key hkey
            split at h
            · cases h
            · rename_i value hvalue
              obtain ⟨entries, rest, hlen, hfits, hcursor, hout⟩ := ih.mp h
              obtain ⟨hklen, hkc⟩ := readText_eq_ok hk hkey
              obtain ⟨hvlen, hvc⟩ := readText_eq_ok hv hvalue
              refine ⟨(key, value)::entries, rest, by simp [hlen], ?_, ?_, ?_⟩
              · intro kv hkv
                cases List.mem_cons.mp hkv with
                | inl he => exact he ▸ ⟨hklen, hvlen⟩
                | inr hmem => exact hfits kv hmem
              · rw [hkc, hvc, hcursor]
                simp [wireEntries]
              · rw [hout, ExtTreeMap.insertMany_cons]
    · rintro ⟨entries, rest, hlen, hfits, rfl, rfl⟩
      cases entries with
      | nil => cases hlen
      | cons kv entries =>
        obtain ⟨hk, hv⟩ := hfits kv List.mem_cons_self
        have hrest : decodeEntries n (wireEntries entries++rest) (headers.insert kv.1 kv.2) =
            .ok (headers.insertMany (kv::entries)) :=
          ih.mpr ⟨entries, rest, by simpa using hlen,
            fun x hx => hfits x (List.mem_cons_of_mem _ hx),
            rfl, ExtTreeMap.insertMany_cons⟩
        simp only [decodeEntries, wireEntries, List.append_assoc, readBlob_wireText hk,
          readBlob_wireText hv, bind, Except.bind, fromUtf8_utf8, hrest]

/-- The decoder accepts the blobs of this shape, whatever follows the pairs. -/
theorem decodeHeaders_eq_ok {blob : List UInt8} {headers : Headers} :
    decodeHeaders blob = .ok headers ↔
      ∃ entries rest, Spells blob entries rest ∧ headers = (∅ : Headers).insertMany entries := by
  constructor
  · intro h
    cases hread : readU32 blob with
    | error err =>
      rw [decodeHeaders, hread] at h
      cases h
    | ok p =>
      obtain ⟨count, tail⟩ := p
      rw [decodeHeaders, hread] at h
      obtain ⟨entries, rest, hlen, hfits, htail, hout⟩ := decodeEntries_eq_ok.mp h
      refine ⟨entries, rest, ⟨hlen ▸ count.toNat_lt, hfits, ?_⟩, hout⟩
      rw [hlen, UInt32.ofNat_toNat, ← htail]
      exact readU32_eq_ok.mp hread
  · rintro ⟨entries, rest, h, rfl⟩
    have hcount : (UInt32.ofNat entries.length).toNat = entries.length := by
      rw [UInt32.toNat_ofNat', Nat.mod_eq_of_lt h.count]
    rw [h.bytes, decodeHeaders, readU32_leBytes]
    exact decodeEntries_eq_ok.mpr ⟨entries, rest, hcount.symm, h.fits, rfl, rfl⟩

theorem encodeEntries_eq_wire {entries : List (String × String)} (h : ∀ kv ∈ entries, PairFits kv) :
    encodeEntries entries = .ok (wireEntries entries) := by
  induction entries with
  | nil => rfl
  | cons kv entries ih =>
    obtain ⟨hk, hv⟩ := h kv List.mem_cons_self
    have ih := ih fun x hx => h x (List.mem_cons_of_mem _ hx)
    simp only [encodeEntries, encodeBlob_of_fits hk, encodeBlob_of_fits hv, ih, bind, Except.bind,
      pure, Except.pure, wireEntries, wireText]

theorem encodeHeaders_eq_ok {headers : Headers} {blob : List UInt8} :
    encodeHeaders headers = .ok blob ↔ Spells blob headers.toList [] := by
  constructor
  · intro h
    have hfit : HeadersFit headers := by
      by_contra hn
      obtain ⟨err, herr⟩ := encode_headers_error hn
      rw [herr] at h
      cases h
    rw [encodeHeaders, tryU32OfNat, if_pos hfit.1] at h
    simp only [encodeEntries_eq_wire hfit.2, bind, Except.bind, pure, Except.pure,
      Except.ok.injEq] at h
    have hlen : headers.toList.length = headers.size := ExtTreeMap.length_toList
    refine ⟨hlen ▸ hfit.1, hfit.2, ?_⟩
    rw [List.append_nil, hlen, h]
  · intro h
    have hlen : headers.toList.length = headers.size := ExtTreeMap.length_toList
    rw [encodeHeaders, tryU32OfNat, if_pos (hlen ▸ h.count), h.bytes, List.append_nil, hlen]
    simp only [encodeEntries_eq_wire h.fits]
    rfl

theorem utf8_injective {s t : String} (h : utf8 s = utf8 t) : s = t := by
  have hs := fromUtf8_utf8 s
  rw [h, fromUtf8_utf8] at hs
  exact (Option.some.inj hs).symm

theorem wireText_append_inj {s t : String} {x y : List UInt8} (hs : (utf8 s).length < 2^32)
    (ht : (utf8 t).length < 2^32) (h : wireText s++x = wireText t++y) : s = t ∧ x = y := by
  have hread := readBlob_wireText hs x
  rw [h, readBlob_wireText ht y, Except.ok.injEq, Prod.mk.injEq] at hread
  exact ⟨(utf8_injective hread.1).symm, hread.2.symm⟩

theorem wireEntries_append_inj {l l' : List (String × String)} {x y : List UInt8}
    (hlen : l.length = l'.length) (hl : ∀ kv ∈ l, PairFits kv) (hl' : ∀ kv ∈ l', PairFits kv)
    (h : wireEntries l++x = wireEntries l'++y) : l = l' ∧ x = y := by
  induction l generalizing l' with
  | nil =>
    rw [List.length_eq_zero_iff.mp hlen.symm] at h ⊢
    exact ⟨rfl, h⟩
  | cons kv l ih =>
    cases l' with
    | nil => cases hlen
    | cons kv' l' =>
      have hkv := hl kv List.mem_cons_self
      have hkv' := hl' kv' List.mem_cons_self
      simp only [wireEntries, List.append_assoc] at h
      obtain ⟨hk, h⟩ := wireText_append_inj hkv.1 hkv'.1 h
      obtain ⟨hv, h⟩ := wireText_append_inj hkv.2 hkv'.2 h
      obtain ⟨rfl, hxy⟩ := ih (Nat.succ.inj hlen) (fun x hx => hl x (List.mem_cons_of_mem _ hx))
        (fun x hx => hl' x (List.mem_cons_of_mem _ hx)) h
      exact ⟨by rw [Prod.ext hk hv], hxy⟩

/-- A blob has at most one reading. -/
theorem Spells.unique {blob x y : List UInt8} {l l' : List (String × String)}
    (h : Spells blob l x) (h' : Spells blob l' y) : l = l' ∧ x = y := by
  have hread := readU32_leBytes (UInt32.ofNat l.length) (wireEntries l++x)
  rw [← h.bytes, h'.bytes, readU32_leBytes, Except.ok.injEq, Prod.mk.injEq] at hread
  obtain ⟨hcount, hbody⟩ := hread
  have hlen := congrArg UInt32.toNat hcount
  rw [UInt32.toNat_ofNat', UInt32.toNat_ofNat', Nat.mod_eq_of_lt h.count,
    Nat.mod_eq_of_lt h'.count] at hlen
  exact wireEntries_append_inj hlen.symm h.fits h'.fits hbody.symm

/-- Pairs in key order are the pairs of the map they make. -/
theorem toList_insertMany {entries : List (String × String)}
    (h : entries.Pairwise fun x y => compare x.1 y.1 = .lt) :
    ((∅ : Headers).insertMany entries).toList = entries := by
  refine eq_of_mem_iff (fun kv : String × String => kv.1) ExtTreeMap.ordered_keys_toList h ?_
  rintro ⟨k, v⟩
  rw [ExtTreeMap.mem_toList_iff_getElem?_eq_some]
  have hdistinct : entries.Pairwise fun x y => ¬compare x.1 y.1 = .eq :=
    h.imp fun hlt he => by rw [hlt] at he; cases he
  constructor
  · intro hget
    by_cases hk : ∃ v', (k, v') ∈ entries
    · obtain ⟨v', hv'⟩ := hk
      rw [ExtTreeMap.getElem?_insertMany_list_of_mem ReflCmp.compare_self hdistinct hv'] at hget
      cases hget
      exact hv'
    · rw [ExtTreeMap.getElem?_insertMany_list_of_contains_eq_false] at hget
      · simp at hget
      · rw [← Bool.not_eq_true, List.contains_iff_mem]
        intro hmem
        obtain ⟨kv, hkv, rfl⟩ := List.mem_map.mp hmem
        exact hk ⟨kv.2, hkv⟩
  · exact ExtTreeMap.getElem?_insertMany_list_of_mem ReflCmp.compare_self hdistinct

/-- Headers within the codec's bounds encode and decode to themselves; past them the
encoder fails. -/
theorem headers_round_trip (headers : Headers) :
    ((headers.size ≤ 2^32-1 ∧ ∀ kv ∈ headers.toList,
        (utf8 kv.1).length ≤ 2^32-1 ∧ (utf8 kv.2).length ≤ 2^32-1) →
      ∃ blob, encodeHeaders headers = .ok blob ∧ decodeHeaders blob = .ok headers) ∧
    (¬(headers.size ≤ 2^32-1 ∧ ∀ kv ∈ headers.toList,
        (utf8 kv.1).length ≤ 2^32-1 ∧ (utf8 kv.2).length ≤ 2^32-1) →
      ∃ err, encodeHeaders headers = .error err) := by
  have hfit : HeadersFit headers ↔ headers.size ≤ 2^32-1 ∧ ∀ kv ∈ headers.toList,
      (utf8 kv.1).length ≤ 2^32-1 ∧ (utf8 kv.2).length ≤ 2^32-1 := by
    simp only [HeadersFit, Nat.lt_iff_le_pred (show 0 < 2^32 by decide)]
  rw [← hfit]
  exact ⟨decode_encode_headers, encode_headers_error⟩

/-- What a blob decodes to encodes back to it exactly when the blob, if it lists pairs
at all, has nothing after them and has their keys in strictly ascending order. -/
theorem decoded_reencodes_iff (blob : List UInt8) :
    (∀ headers, decodeHeaders blob = .ok headers → encodeHeaders headers = .ok blob) ↔
      ∀ entries rest, Spells blob entries rest →
        rest = [] ∧ entries.Pairwise fun x y => x.1 < y.1 := by
  constructor
  · intro h entries rest hspells
    have henc := h _ (decodeHeaders_eq_ok.mpr ⟨entries, rest, hspells, rfl⟩)
    obtain ⟨hentries, hrest⟩ := hspells.unique (encodeHeaders_eq_ok.mp henc)
    have hsorted : entries.Pairwise fun x y => compare x.1 y.1 = .lt := by
      rw [hentries]
      exact ExtTreeMap.ordered_keys_toList
    exact ⟨hrest, hsorted.imp LawfulLTCmp.eq_lt_iff_lt.mp⟩
  · intro h headers hdec
    obtain ⟨entries, rest, hspells, rfl⟩ := decodeHeaders_eq_ok.mp hdec
    obtain ⟨rfl, hsorted⟩ := h entries rest hspells
    rw [encodeHeaders_eq_ok, toList_insertMany (hsorted.imp LawfulLTCmp.eq_lt_iff_lt.mpr)]
    exact hspells

def repeatedKey : List UInt8 := leBytes 2++wireEntries [("k", "1"), ("k", "2")]

/-- A byte after the last pair is dropped unread, and of a repeated key the last value
silently wins. -/
theorem decoded_not_reencoded :
    (∃ headers, decodeHeaders [0, 0, 0, 0, 7] = .ok headers ∧
      encodeHeaders headers ≠ .ok [0, 0, 0, 0, 7]) ∧
    ∃ headers, decodeHeaders repeatedKey = .ok headers ∧ headers.toList = [("k", "2")] ∧
      encodeHeaders headers ≠ .ok repeatedKey :=
  ⟨⟨∅, by decide +kernel, by decide +kernel⟩,
    (∅ : Headers).insert "k" "2", by decide +kernel, by decide +kernel, by decide +kernel⟩

end OutboxKit
