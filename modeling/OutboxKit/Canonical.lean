import OutboxKit.Wire
import Mathlib.Algebra.Order.BigOperators.Group.List

/-! Damaged and foreign headers blobs. A blob cut short anywhere is refused, always in
the same words; a blob with more behind it reads as it did; and whatever the decoder
accepts the encoder takes back, in no more bytes than it came in. -/
namespace OutboxKit
open Std

def corruptBlob : StoreError := .backend (.kit "corrupt headers blob")

section Cut
variable {α : Type} {cut x y : List α}

theorem prefix_append_cases (h : cut <+: x++y) :
    (cut <+: x ∧ cut.length < x.length) ∨ ∃ rest, cut = x++rest ∧ rest <+: y := by
  rcases Nat.lt_or_ge cut.length x.length with hlt | hge
  · exact Or.inl ⟨List.prefix_of_prefix_length_le h (List.prefix_append x y) hlt.le, hlt⟩
  · obtain ⟨rest, rfl⟩ := List.prefix_of_prefix_length_le (List.prefix_append x y) h hge
    exact Or.inr ⟨rest, rfl, (List.prefix_append_right_inj x).mp h⟩

end Cut

theorem length_leBytes (n : UInt32) : (leBytes n).length = 4 := rfl

theorem length_wireText (s : String) : (wireText s).length = 4+(utf8 s).length := by
  rw [wireText, List.length_append, length_leBytes]

theorem readU32_short {cut : List UInt8} (h : cut.length < 4) :
    readU32 cut = .error corruptBlob := by
  rw [readU32]
  · rfl
  · rintro a b c d rest rfl
    simp only [List.length_cons] at h
    omega

theorem readBlob_cut {cut : List UInt8} {s : String} (hs : (utf8 s).length < 2^32)
    (h : cut <+: wireText s) (hlt : cut.length < (wireText s).length) :
    readBlob cut = .error corruptBlob := by
  rw [length_wireText] at hlt
  cases prefix_append_cases h with
  | inl hshort =>
    rw [readBlob, readU32_short hshort.2]
    rfl
  | inr hrest =>
    obtain ⟨rest, rfl, -⟩ := hrest
    rw [List.length_append, length_leBytes] at hlt
    have hlen : (UInt32.ofNat (utf8 s).length).toNat = (utf8 s).length := by
      rw [UInt32.toNat_ofNat', Nat.mod_eq_of_lt hs]
    have hle : ¬(utf8 s).length ≤ rest.length := by omega
    rw [readBlob, readU32_leBytes]
    simp only [bind, Except.bind, hlen, if_neg hle]
    rfl

theorem decodeEntries_cut {entries : List (String × String)} {cut : List UInt8} (headers : Headers)
    (hfits : ∀ kv ∈ entries, PairFits kv) (h : cut <+: wireEntries entries)
    (hlt : cut.length < (wireEntries entries).length) :
    decodeEntries entries.length cut headers = .error corruptBlob := by
  induction entries generalizing cut headers with
  | nil => cases hlt
  | cons kv entries ih =>
    obtain ⟨hk, hv⟩ := hfits kv List.mem_cons_self
    rw [List.length_cons, decodeEntries]
    cases prefix_append_cases h with
    | inl hcut =>
      rw [readBlob_cut hk hcut.1 hcut.2]
      rfl
    | inr hkey =>
      obtain ⟨cut, rfl, hcut⟩ := hkey
      simp only [readBlob_wireText hk, bind, Except.bind]
      cases prefix_append_cases hcut with
      | inl hcut => rw [readBlob_cut hv hcut.1 hcut.2]
      | inr hvalue =>
        obtain ⟨cut, rfl, hrest⟩ := hvalue
        simp only [readBlob_wireText hv, fromUtf8_utf8]
        refine ih _ (fun x hx => hfits x (List.mem_cons_of_mem _ hx)) hrest ?_
        simpa [wireEntries] using hlt

/-- A blob the encoder wrote, cut anywhere, is refused as corrupt. -/
theorem Spells.cut {blob cut : List UInt8} {entries : List (String × String)}
    (hblob : Spells blob entries []) (h : cut <+: blob) (hne : cut ≠ blob) :
    decodeHeaders cut = .error corruptBlob := by
  have hlt : cut.length < blob.length := by
    by_contra hge
    exact hne (h.eq_of_length_le (Nat.le_of_not_lt hge))
  rw [hblob.bytes, List.append_nil] at h hlt
  cases prefix_append_cases h with
  | inl hcount =>
    rw [decodeHeaders, readU32_short hcount.2]
    rfl
  | inr hrest =>
    obtain ⟨cut, rfl, hcut⟩ := hrest
    have hcount : (UInt32.ofNat entries.length).toNat = entries.length := by
      rw [UInt32.toNat_ofNat', Nat.mod_eq_of_lt hblob.count]
    rw [decodeHeaders, readU32_leBytes]
    simp only [bind, Except.bind, hcount]
    exact decodeEntries_cut ∅ hblob.fits hcut (by simpa using hlt)

section Size
variable {headers : Headers} {entries : List (String × String)}

theorem mem_of_getElem?_insertMany {k v : String} (h : (headers.insertMany entries)[k]? = some v) :
    (k, v) ∈ entries ∨ headers[k]? = some v := by
  induction entries generalizing headers with
  | nil =>
    rw [ExtTreeMap.insertMany_nil] at h
    exact Or.inr h
  | cons kv entries ih =>
    rw [ExtTreeMap.insertMany_cons] at h
    cases ih h with
    | inl hmem => exact Or.inl (List.mem_cons_of_mem _ hmem)
    | inr hget =>
      rw [ExtTreeMap.getElem?_insert] at hget
      split at hget
      · rename_i he
        obtain rfl := LawfulEqCmp.eq_of_compare he
        obtain rfl := Option.some.inj hget
        exact Or.inl List.mem_cons_self
      · exact Or.inr hget

theorem length_wireEntries (entries : List (String × String)) : (wireEntries entries).length =
    (entries.map fun kv => (wireText kv.1).length+(wireText kv.2).length).sum := by
  induction entries with
  | nil => rfl
  | cons kv entries ih =>
    rw [wireEntries, List.length_append, List.length_append, ih, List.map_cons, List.sum_cons,
      Nat.add_assoc]

theorem eight_le_wireEntries (entries : List (String × String)) :
    8*entries.length ≤ (wireEntries entries).length := by
  induction entries with
  | nil => exact Nat.le_refl 0
  | cons kv entries ih =>
    rw [wireEntries, List.length_append, List.length_append, length_wireText, length_wireText,
      List.length_cons]
    omega

theorem toList_subperm (entries : List (String × String)) :
    ((∅ : Headers).insertMany entries).toList.Subperm entries := by
  refine List.subperm_of_subset ?_ fun kv hkv => ?_
  · refine (ExtTreeMap.distinct_keys_toList (t := (∅ : Headers).insertMany entries)).imp ?_
    rintro a b hab rfl
    exact hab ReflCmp.compare_self
  · have hget := ExtTreeMap.mem_toList_iff_getElem?_eq_some.mp (show (kv.1, kv.2) ∈ _ from hkv)
    exact (mem_of_getElem?_insertMany hget).resolve_right (by simp)

theorem wireEntries_subperm_le {l : List (String × String)} (h : l.Subperm entries) :
    (wireEntries l).length ≤ (wireEntries entries).length := by
  obtain ⟨mid, hperm, hsub⟩ := h
  rw [length_wireEntries, length_wireEntries, ← (hperm.map _).sum_eq]
  exact (hsub.map _).sum_le_sum fun _ _ => Nat.zero_le _

end Size

/-- A stored headers blob cut short is refused, and always as corrupt: nothing is read
that the encoder did not write whole. -/
theorem cut_blob_refused (headers : Headers) (blob cut more : List UInt8)
    (henc : encodeHeaders headers = .ok blob) (hcut : blob = cut++more) (hmore : more ≠ []) :
    decodeHeaders cut = .error corruptBlob := by
  refine (encodeHeaders_eq_ok.mp henc).cut (hcut ▸ List.prefix_append cut more) ?_
  rintro rfl
  exact hmore (List.self_eq_append_right.mp hcut)

/-- What the decoder accepts, from whatever source, it accepts with any bytes behind it,
and the encoder takes back: it writes a blob that reads the same and is no longer. So a
blob of `n` bytes never reads as more than `(n-4)/8` headers, whatever its count says. -/
theorem decoded_reencodes_shorter (blob more : List UInt8) (headers : Headers)
    (h : decodeHeaders blob = .ok headers) :
    decodeHeaders (blob++more) = .ok headers ∧
    ∃ out, encodeHeaders headers = .ok out ∧ decodeHeaders out = .ok headers ∧
      4+8*headers.size ≤ out.length ∧ out.length ≤ blob.length := by
  obtain ⟨entries, rest, hspells, rfl⟩ := decodeHeaders_eq_ok.mp h
  have hsub := toList_subperm entries
  have hout : Spells (leBytes (UInt32.ofNat ((∅ : Headers).insertMany entries).toList.length) ++
      (wireEntries ((∅ : Headers).insertMany entries).toList++[]))
      ((∅ : Headers).insertMany entries).toList [] :=
    ⟨hsub.length_le.trans_lt hspells.count, fun kv hkv => hspells.fits kv (hsub.subset hkv), rfl⟩
  have hmore : Spells (blob++more) entries (rest++more) :=
    ⟨hspells.count, hspells.fits, by simp [hspells.bytes]⟩
  refine ⟨decodeHeaders_eq_ok.mpr ⟨entries, rest++more, hmore, rfl⟩, _,
    encodeHeaders_eq_ok.mpr hout, decodeHeaders_of_encode (encodeHeaders_eq_ok.mpr hout), ?_, ?_⟩
  · rw [List.length_append, List.append_nil, length_leBytes, ← ExtTreeMap.length_toList]
    exact Nat.add_le_add_left (eight_le_wireEntries _) 4
  · have hle := wireEntries_subperm_le hsub
    rw [hspells.bytes]
    simp only [List.length_append, length_leBytes, List.length_nil]
    omega

/-- Two headers, cut in the second value. -/
theorem cut_blob_refused_secondValue :
    decodeHeaders (leBytes 2++(wireEntries [("a", "1")]++(wireText "b"++[1, 0, 0, 0]))) =
      .error corruptBlob :=
  cut_blob_refused (((∅ : Headers).insert "a" "1").insert "b" "2")
    (leBytes 2++wireEntries [("a", "1"), ("b", "2")]) _ [50] (by decide +kernel) (by decide +kernel)
    (by decide)

theorem decoded_reencodes_shorter_repeatedKey :
    ∃ out, encodeHeaders ((∅ : Headers).insert "k" "2") = .ok out ∧
      out.length = 14 ∧ repeatedKey.length = 24 ∧
      decodeHeaders (repeatedKey++[7]) = .ok ((∅ : Headers).insert "k" "2") := by
  obtain ⟨hmore, -⟩ := decoded_reencodes_shorter repeatedKey [7]
    ((∅ : Headers).insert "k" "2") (by decide +kernel)
  have henc : encodeHeaders ((∅ : Headers).insert "k" "2") =
      .ok (leBytes 1++wireEntries [("k", "2")]) := by
    decide +kernel
  exact ⟨_, henc, by decide +kernel, by decide +kernel, hmore⟩

end OutboxKit
