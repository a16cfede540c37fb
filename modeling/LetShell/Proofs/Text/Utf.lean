import LetShell.Text.Utf

/-!
# UTF-8 both ways

Decoding undoes encoding, and what can be decoded is the encoding of the text it
decodes to. So exactly the encodings of texts can be decoded: no character has a
second form.
-/

set_option autoImplicit false

namespace LetShell.Text

theorem isTail_iff {b : Nat} : isTail b = true ↔ 0x80 ≤ b ∧ b < 0xc0 := by
  simp [isTail]

theorem fits_iff {least n : Nat} :
    fits least n = true ↔ least ≤ n ∧ n < 0x110000 ∧ ¬(0xd800 ≤ n ∧ n < 0xe000) := by
  simp [fits]
  omega

theorem toNat_ofNat {n : Nat} (h : n < 0x110000) (hs : ¬(0xd800 ≤ n ∧ n < 0xe000)) :
    (Char.ofNat n).toNat = n := by
  have hvalid : n.isValidChar := by
    unfold Nat.isValidChar
    omega
  rw [Char.ofNat, dif_pos hvalid]
  rfl

theorem toNat_cases (c : Char) :
    c.toNat < 0x110000 ∧ ¬(0xd800 ≤ c.toNat ∧ c.toNat < 0xe000) := by
  have hvalid : c.toNat.isValidChar := c.valid
  unfold Nat.isValidChar at hvalid
  omega

theorem ofOctets_utf8Char (c : Char) (s : List Nat) :
    ofOctets (utf8Char c ++ s) = (ofOctets s).map (c :: ·) := by
  obtain ⟨hlast, hsurrogate⟩ := toNat_cases c
  have hc : ∀ n, n = c.toNat → Char.ofNat n = c := by
    rintro n rfl
    exact Char.ofNat_toNat c
  unfold utf8Char
  simp only
  split
  · rename_i h
    rw [List.cons_append, List.nil_append, ofOctets.eq_def]
    simp only [if_pos h, hc _ rfl]
  · split
    · rename_i h1 h2
      have hn : (0xc0 + c.toNat / 64 - 0xc0) * 64 + (0x80 + c.toNat % 64 - 0x80) = c.toNat := by
        omega
      have htail : isTail (0x80 + c.toNat % 64) = true := isTail_iff.mpr (by omega)
      have hfits : fits 0x80 c.toNat = true := fits_iff.mpr (by omega)
      simp only [List.cons_append, List.nil_append, ofOctets, hn, htail, hfits, Bool.and_self,
        if_true, hc _ rfl]
      rw [if_neg (by omega), if_neg (by omega), if_pos (by omega)]
    · split
      · rename_i h1 h2 h3
        have hn : (0xe0 + c.toNat / 4096 - 0xe0) * 4096 + (0x80 + c.toNat / 64 % 64 - 0x80) * 64 +
            (0x80 + c.toNat % 64 - 0x80) = c.toNat := by
          omega
        have htail : isTail (0x80 + c.toNat % 64) = true := isTail_iff.mpr (by omega)
        have htail' : isTail (0x80 + c.toNat / 64 % 64) = true := isTail_iff.mpr (by omega)
        have hfits : fits 0x800 c.toNat = true := fits_iff.mpr (by omega)
        simp only [List.cons_append, List.nil_append, ofOctets, hn, htail, htail', hfits,
          Bool.and_self, if_true, hc _ rfl]
        rw [if_neg (by omega), if_neg (by omega), if_neg (by omega), if_pos (by omega)]
      · rename_i h1 h2 h3
        have hn : (0xf0 + c.toNat / 262144 - 0xf0) * 262144 +
            (0x80 + c.toNat / 4096 % 64 - 0x80) * 4096 + (0x80 + c.toNat / 64 % 64 - 0x80) * 64 +
            (0x80 + c.toNat % 64 - 0x80) = c.toNat := by
          omega
        have htail : isTail (0x80 + c.toNat % 64) = true := isTail_iff.mpr (by omega)
        have htail' : isTail (0x80 + c.toNat / 64 % 64) = true := isTail_iff.mpr (by omega)
        have htail'' : isTail (0x80 + c.toNat / 4096 % 64) = true := isTail_iff.mpr (by omega)
        have hfits : fits 0x10000 c.toNat = true := fits_iff.mpr (by omega)
        simp only [List.cons_append, List.nil_append, ofOctets, hn, htail, htail', htail'', hfits,
          Bool.and_self, if_true, hc _ rfl]
        rw [if_neg (by omega), if_neg (by omega), if_neg (by omega), if_neg (by omega)]

theorem ofOctets_flatMap (t : Text) : ofOctets (t.flatMap utf8Char) = some t := by
  induction t with
  | nil => rfl
  | cons c t ih => rw [List.flatMap_cons, ofOctets_utf8Char, ih, Option.map_some]

section
variable {octets form : List Nat} {t : Text} {n a b c d : Nat}

theorem utf8Char_one (h : a < 0x80) : utf8Char (Char.ofNat a) = [a] := by
  simp only [utf8Char, toNat_ofNat (by omega) (by omega : ¬(0xd800 ≤ a ∧ a < 0xe000)), if_pos h]

theorem utf8Char_two (ha : 0xc0 ≤ a) (hb : isTail b = true)
    (hn : (a - 0xc0) * 64 + (b - 0x80) = n) (ha' : a < 0xe0) (hf : fits 0x80 n = true) :
    utf8Char (Char.ofNat n) = [a, b] := by
  obtain ⟨hleast, hlast, hsurrogate⟩ := fits_iff.mp hf
  obtain ⟨hb, hb'⟩ := isTail_iff.mp hb
  simp only [utf8Char, toNat_ofNat hlast hsurrogate]
  rw [if_neg (by omega), if_pos (by omega)]
  simp only [List.cons.injEq, and_true]
  omega

theorem utf8Char_three (ha : 0xe0 ≤ a) (hb : isTail b = true) (hc : isTail c = true)
    (hn : (a - 0xe0) * 4096 + (b - 0x80) * 64 + (c - 0x80) = n) (ha' : a < 0xf0)
    (hf : fits 0x800 n = true) : utf8Char (Char.ofNat n) = [a, b, c] := by
  obtain ⟨hleast, hlast, hsurrogate⟩ := fits_iff.mp hf
  obtain ⟨hb, hb'⟩ := isTail_iff.mp hb
  obtain ⟨hc, hc'⟩ := isTail_iff.mp hc
  simp only [utf8Char, toNat_ofNat hlast hsurrogate]
  rw [if_neg (by omega), if_neg (by omega), if_pos (by omega)]
  simp only [List.cons.injEq, and_true]
  omega

theorem utf8Char_four (ha : 0xf0 ≤ a) (hb : isTail b = true) (hc : isTail c = true)
    (hd : isTail d = true)
    (hn : (a - 0xf0) * 262144 + (b - 0x80) * 4096 + (c - 0x80) * 64 + (d - 0x80) = n)
    (hf : fits 0x10000 n = true) : utf8Char (Char.ofNat n) = [a, b, c, d] := by
  obtain ⟨hleast, hlast, hsurrogate⟩ := fits_iff.mp hf
  obtain ⟨hb, hb'⟩ := isTail_iff.mp hb
  obtain ⟨hc, hc'⟩ := isTail_iff.mp hc
  obtain ⟨hd, hd'⟩ := isTail_iff.mp hd
  simp only [utf8Char, toNat_ofNat hlast hsurrogate]
  rw [if_neg (by omega), if_neg (by omega), if_neg (by omega)]
  simp only [List.cons.injEq, and_true]
  omega

theorem flatMap_of_map (hform : utf8Char (Char.ofNat n) = form)
    (ih : ∀ {t}, ofOctets octets = some t → t.flatMap utf8Char = octets)
    (h : (ofOctets octets).map (Char.ofNat n :: ·) = some t) :
    t.flatMap utf8Char = form ++ octets := by
  obtain ⟨rest, hrest, rfl⟩ := Option.map_eq_some_iff.mp h
  rw [List.flatMap_cons, hform, ih hrest]

theorem flatMap_of_ofOctets (h : ofOctets octets = some t) : t.flatMap utf8Char = octets := by
  fun_induction ofOctets octets generalizing t with
  | case1 =>
    cases h
    rfl
  | case2 a s ha ih => exact flatMap_of_map (utf8Char_one ha) ih h
  | case4 a _ ha ha' b s n hgood =>
    rename_i ih
    simp only [Bool.and_eq_true] at hgood
    exact flatMap_of_map (utf8Char_two (by omega) hgood.1 rfl ha' hgood.2) ih h
  | case7 a _ _ ha ha' b c s n hgood =>
    rename_i ih
    simp only [Bool.and_eq_true] at hgood
    exact flatMap_of_map (utf8Char_three (by omega) hgood.1.1 hgood.1.2 rfl ha' hgood.2) ih h
  | case10 a _ _ _ ha b c d s n hgood =>
    rename_i ih
    simp only [Bool.and_eq_true] at hgood
    exact flatMap_of_map
      (utf8Char_four (by omega) hgood.1.1.1 hgood.1.1.2 hgood.1.2 rfl hgood.2) ih h
  | case3 | case5 | case6 | case8 | case9 | case11 | case12 => cases h

end

theorem utf8Char_lt (c : Char) : ∀ n ∈ utf8Char c, n < 256 := by
  have hc := (toNat_cases c).1
  intro n hn
  simp only [utf8Char] at hn
  split at hn
  · simp only [List.mem_singleton] at hn
    omega
  · split at hn
    · simp only [List.mem_cons, List.not_mem_nil, or_false] at hn
      omega
    · split at hn
      · simp only [List.mem_cons, List.not_mem_nil, or_false] at hn
        omega
      · simp only [List.mem_cons, List.not_mem_nil, or_false] at hn
        omega

theorem toNat_utf8 (t : Text) : (utf8 t).map UInt8.toNat = t.flatMap utf8Char := by
  rw [utf8, List.map_map]
  apply (List.map_congr_left ?_).trans (List.map_id _)
  intro n hn
  obtain ⟨c, -, hc⟩ := List.mem_flatMap.mp hn
  exact UInt8.toNat_ofNat_of_lt' (utf8Char_lt c n hc)

/-- Decoding undoes encoding, and nothing else can be decoded. -/
theorem ofUtf8?_eq_some_iff {bytes : Bytes} {t : Text} :
    ofUtf8? bytes = some t ↔ utf8 t = bytes := by
  constructor
  · intro h
    rw [utf8, flatMap_of_ofOctets h, List.map_map]
    apply (List.map_congr_left ?_).trans (List.map_id _)
    intro b _
    exact UInt8.ofNat_toNat
  · rintro rfl
    rw [ofUtf8?, toNat_utf8, ofOctets_flatMap]

end LetShell.Text
