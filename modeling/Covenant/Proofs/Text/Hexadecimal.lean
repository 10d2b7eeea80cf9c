import Covenant.Text.Hex

/-! Bytes as hexadecimal text. Bytes survive being written. A text is read exactly if it is made of
pairs of digits, and what is read is written as the same text in lowercase. -/

namespace Covenant.Hex

/-- The digits that are written. -/
def IsLowerDigit (c : Char) : Prop :=
  '0' ≤ c ∧ c ≤ '9' ∨ 'a' ≤ c ∧ c ≤ 'f'

/-- The digits that are read. -/
def IsDigit (c : Char) : Prop :=
  IsLowerDigit c ∨ 'A' ≤ c ∧ c ≤ 'F'

instance (c : Char) : Decidable (IsLowerDigit c) :=
  inferInstanceAs (Decidable (_ ∨ _))

instance (c : Char) : Decidable (IsDigit c) :=
  inferInstanceAs (Decidable (_ ∨ _))

/-! Single digits, checked value by value. -/

theorem forall_byte {p : UInt8 → Prop} (checked : ∀ n < 256, p (UInt8.ofNat n)) (byte : UInt8) :
    p byte := by
  have holds := checked byte.toNat byte.toNat_lt
  rwa [UInt8.ofNat_toNat] at holds

theorem forall_ascii {p : Char → Prop} (checked : ∀ n < 128, p (Char.ofNat n)) {c : Char}
    (ascii : c.utf8Size = 1) : p c := by
  have small : c.toNat < 128 :=
    Nat.lt_succ_of_le (UInt32.le_iff_toNat_le.1 (Char.utf8Size_eq_one_iff.1 ascii))
  have holds := checked c.toNat small
  rwa [Char.ofNat_toNat] at holds

theorem digitValue?_digit {n : Nat} (small : n < 16) :
    digitValue? (digit n).toUInt8 = some (UInt8.ofNat n) := by
  have all : ∀ n < 16, digitValue? (digit n).toUInt8 = some (UInt8.ofNat n) := by decide
  exact all n small

theorem isLowerDigit_digit {n : Nat} (small : n < 16) : IsLowerDigit (digit n) := by
  have all : ∀ n < 16, IsLowerDigit (digit n) := by decide
  exact all n small

theorem digit_eq_digitChar {n : Nat} (small : n < 16) : digit n = n.digitChar := by
  have all : ∀ n < 16, digit n = n.digitChar := by decide
  exact all n small

/-- A digit that is read is written as its lowercase form. -/
theorem digit_of_digitValue? {code value : UInt8} (read : digitValue? code = some value) :
    value.toNat < 16 ∧ digit value.toNat = (Char.ofUInt8 code).toLower := by
  have checked := forall_byte (p := fun code => (digitValue? code).all fun value =>
    value.toNat < 16 ∧ digit value.toNat = (Char.ofUInt8 code).toLower) (by decide +kernel) code
  rw [read, Option.all_some] at checked
  exact of_decide_eq_true checked

theorem digitValue?_eq_none_of_le {code : UInt8} : 0x80 ≤ code → digitValue? code = none :=
  forall_byte (p := fun code => 0x80 ≤ code → digitValue? code = none) (by decide +kernel) code

theorem isSome_digitValue?_iff_of_ascii {c : Char} (ascii : c.utf8Size = 1) :
    (digitValue? c.toUInt8).isSome ↔ IsDigit c :=
  forall_ascii (p := fun c => (digitValue? c.toUInt8).isSome ↔ IsDigit c) (by decide +kernel) ascii

theorem ofUInt8_toUInt8_of_ascii {c : Char} (ascii : c.utf8Size = 1) :
    Char.ofUInt8 c.toUInt8 = c :=
  forall_ascii (p := fun c => Char.ofUInt8 c.toUInt8 = c) (by decide +kernel) ascii

theorem utf8Size_of_isDigit {c : Char} (isDigit : IsDigit c) : c.utf8Size = 1 := by
  rw [Char.utf8Size_eq_one_iff]
  rcases isDigit with (⟨_, upper⟩ | ⟨_, upper⟩) | ⟨_, upper⟩
  · exact UInt32.le_trans upper (by decide)
  · exact UInt32.le_trans upper (by decide)
  · exact UInt32.le_trans upper (by decide)

/-! The bytes of a character. Every lead byte of a longer encoding has its highest bit set. -/

theorem digitValue?_or_of_le {mask : UInt8} (high : 0x80 ≤ mask) (code : UInt8) :
    digitValue? (code ||| mask) = none := by
  apply digitValue?_eq_none_of_le
  rw [UInt8.le_iff_toNat_le, UInt8.toNat_or]
  exact Nat.le_trans (UInt8.le_iff_toNat_le.1 high) Nat.right_le_or

theorem not_forall_of_lead {c : Char} {lead mask : UInt8} {codes : List UInt8} (high : 0x80 ≤ mask)
    (encoded : String.utf8EncodeChar c = (lead ||| mask) :: codes) :
    ¬∀ code ∈ String.utf8EncodeChar c, (digitValue? code).isSome := by
  intro all
  have read := all (lead ||| mask) (encoded ▸ List.mem_cons_self)
  rw [digitValue?_or_of_le high] at read
  cases read

theorem forall_utf8EncodeChar_iff (c : Char) :
    (∀ code ∈ String.utf8EncodeChar c, (digitValue? code).isSome) ↔ IsDigit c := by
  have noDigit (long : c.utf8Size ≠ 1) : ¬IsDigit c := fun isDigit =>
    long (utf8Size_of_isDigit isDigit)
  rcases Char.utf8Size_eq c with one | two | three | four
  · rw [String.utf8EncodeChar_eq_singleton one, List.forall_mem_singleton]
    exact isSome_digitValue?_iff_of_ascii one
  · have encoded := String.utf8EncodeChar_eq_cons_cons two
    exact iff_of_false (not_forall_of_lead (by decide) encoded) (noDigit (by omega))
  · have encoded := String.utf8EncodeChar_eq_cons_cons_cons three
    exact iff_of_false (not_forall_of_lead (by decide) encoded) (noDigit (by omega))
  · have encoded := String.utf8EncodeChar_eq_cons_cons_cons_cons four
    exact iff_of_false (not_forall_of_lead (by decide) encoded) (noDigit (by omega))

theorem toUTF8_eq_flatMap (text : String) :
    text.toUTF8.data.toList = text.toList.flatMap String.utf8EncodeChar := by
  rw [String.toUTF8_eq_toByteArray, ← String.utf8Encode_toList]
  exact List.toList_data_toByteArray

theorem toUTF8_of_digits {text : String} (digits : ∀ c ∈ text.toList, IsDigit c) :
    text.toUTF8.data.toList = text.toList.map Char.toUInt8 := by
  rw [toUTF8_eq_flatMap, List.map_eq_flatMap, List.flatMap_def, List.flatMap_def]
  apply congrArg
  apply List.map_congr_left
  intro c member
  exact String.utf8EncodeChar_eq_singleton (utf8Size_of_isDigit (digits c member))

/-! Two digits are the halves of a byte. -/

theorem toNat_pair {high low : UInt8} (highSmall : high.toNat < 16) (lowSmall : low.toNat < 16) :
    (high <<< 4 ||| low).toNat = 16 * high.toNat + low.toNat := by
  have shifted : (high <<< 4).toNat = high.toNat <<< 4 := by
    rw [UInt8.toNat_shiftLeft]
    apply Nat.mod_eq_of_lt
    change high.toNat <<< 4 < 256
    rw [Nat.shiftLeft_eq]
    omega
  rw [UInt8.toNat_or, shifted, ← Nat.shiftLeft_add_eq_or_of_lt (by omega), Nat.shiftLeft_eq]
  omega

theorem encodeByte_pair {high low : UInt8} (highSmall : high.toNat < 16)
    (lowSmall : low.toNat < 16) :
    encodeByte (high <<< 4 ||| low) = [digit high.toNat, digit low.toNat] := by
  rw [encodeByte, toNat_pair highSmall lowSmall, Nat.mul_add_div (by decide),
    Nat.div_eq_of_lt lowSmall, Nat.mul_add_mod, Nat.mod_eq_of_lt lowSmall, Nat.add_zero]

theorem pair_halves (byte : UInt8) :
    UInt8.ofNat (byte.toNat / 16) <<< 4 ||| UInt8.ofNat (byte.toNat % 16) = byte := by
  have bound : byte.toNat < 256 := byte.toNat_lt
  have high : (UInt8.ofNat (byte.toNat / 16)).toNat = byte.toNat / 16 :=
    UInt8.toNat_ofNat_of_lt' (Nat.lt_of_le_of_lt (by omega) byte.toNat_lt)
  have low : (UInt8.ofNat (byte.toNat % 16)).toNat = byte.toNat % 16 :=
    UInt8.toNat_ofNat_of_lt' (Nat.lt_of_le_of_lt (by omega) byte.toNat_lt)
  apply UInt8.toNat_inj.1
  rw [toNat_pair (by omega) (by omega), high, low, Nat.div_add_mod]

/-! Reading pairs. -/

-- Statements about a run go over any bytes `done` before it, which stand latest first.

theorem isSome_decodePairs?_go_iff (done codes : List UInt8) :
    (decodePairs?.go done codes).isSome ↔
      codes.length % 2 = 0 ∧ ∀ code ∈ codes, (digitValue? code).isSome := by
  fun_induction decodePairs?.go done codes with
  | case1 done => simp
  | case2 done code => simp
  | case3 done high low rest h l lowRead highRead induction =>
      have parity : (high :: low :: rest).length % 2 = rest.length % 2 :=
        Nat.add_mod_right rest.length 2
      rw [induction, parity, List.forall_mem_cons, List.forall_mem_cons, highRead, lowRead]
      simp
  | case4 done high low rest unread =>
      constructor
      · intro read
        cases read
      · rintro ⟨_, all⟩
        obtain ⟨h, highRead⟩ := Option.isSome_iff_exists.1 (all high (by simp))
        obtain ⟨l, lowRead⟩ := Option.isSome_iff_exists.1 (all low (by simp))
        exact (unread h l highRead lowRead).elim

theorem encode_of_decodePairs?_go {done codes bytes : List UInt8}
    (read : decodePairs?.go done codes = some bytes) :
    bytes.flatMap encodeByte =
      done.reverse.flatMap encodeByte ++ codes.map fun code => (Char.ofUInt8 code).toLower := by
  fun_induction decodePairs?.go done codes with
  | case1 done =>
      cases read
      simp
  | case2 done code => cases read
  | case3 done high low rest h l lowRead highRead induction =>
      obtain ⟨highSmall, highWritten⟩ := digit_of_digitValue? highRead
      obtain ⟨lowSmall, lowWritten⟩ := digit_of_digitValue? lowRead
      rw [induction read, List.reverse_cons, List.flatMap_append, List.flatMap_singleton,
        encodeByte_pair highSmall lowSmall, highWritten, lowWritten]
      simp
  | case4 done high low rest unread => cases read

theorem decodePairs?_go_encode (done bytes : List UInt8) :
    decodePairs?.go done ((bytes.flatMap encodeByte).map Char.toUInt8) =
      some (done.reverse ++ bytes) := by
  induction bytes generalizing done with
  | nil => simp [decodePairs?.go]
  | cons byte bytes induction =>
      have bound : byte.toNat < 256 := byte.toNat_lt
      have high := digitValue?_digit (show byte.toNat / 16 < 16 by omega)
      have low := digitValue?_digit (show byte.toNat % 16 < 16 by omega)
      rw [List.flatMap_cons, encodeByte, List.cons_append, List.cons_append, List.nil_append,
        List.map_cons, List.map_cons, decodePairs?.go]
      simp only [high, low, pair_halves]
      rw [induction]
      simp

/-! Writing bytes and reading them back. -/

theorem length_encode (bytes : List UInt8) : (encode bytes).length = 2 * bytes.length := by
  rw [encode, String.length_ofList]
  induction bytes with
  | nil => rfl
  | cons byte bytes induction =>
      rw [List.flatMap_cons, List.length_append, induction, encodeByte]
      simp only [List.length_cons, List.length_nil]
      omega

theorem isLowerDigit_of_mem_encode {bytes : List UInt8} {c : Char}
    (member : c ∈ (encode bytes).toList) : IsLowerDigit c := by
  rw [encode, String.toList_ofList] at member
  obtain ⟨byte, _, member⟩ := List.mem_flatMap.1 member
  have bound : byte.toNat < 256 := byte.toNat_lt
  rw [encodeByte, List.mem_cons, List.mem_singleton] at member
  rcases member with rfl | rfl
  · exact isLowerDigit_digit (by omega)
  · exact isLowerDigit_digit (by omega)

theorem encodeByte_eq_padded (byte : UInt8) : encodeByte byte = (padded 2 byte.toNat).toList := by
  have bound : byte.toNat < 256 := byte.toNat_lt
  have low := Nat.mod_lt byte.toNat (show 0 < 16 by decide)
  rw [encodeByte, padded, String.toList_ofList, digit_eq_digitChar (by omega),
    digit_eq_digitChar low]
  by_cases short : byte.toNat < 16
  · rw [Nat.div_eq_of_lt short, Nat.mod_eq_of_lt short, Nat.toDigits_of_lt_base short]
    rfl
  · have digits : Nat.toDigits 16 byte.toNat =
        [(byte.toNat / 16).digitChar, (byte.toNat % 16).digitChar] := by
      calc
        Nat.toDigits 16 byte.toNat
          = Nat.toDigits 16 (16 * (byte.toNat / 16) + byte.toNat % 16) := by rw [Nat.div_add_mod]
        _ = Nat.toDigits 16 (byte.toNat / 16) ++ Nat.toDigits 16 (byte.toNat % 16) :=
          (Nat.toDigits_append_toDigits (by decide) (by omega) low).symm
        _ = _ := by
          rw [Nat.toDigits_of_lt_base (show byte.toNat / 16 < 16 by omega),
            Nat.toDigits_of_lt_base low]
          rfl
    rw [digits]
    rfl

/-- Each byte is written as a number of two digits. -/
theorem toList_encode (bytes : List UInt8) :
    (encode bytes).toList = bytes.flatMap fun byte => (padded 2 byte.toNat).toList := by
  rw [encode, String.toList_ofList, funext encodeByte_eq_padded]

theorem decode?_encode (bytes : List UInt8) : decode? (encode bytes) = some bytes := by
  rw [decode?, toUTF8_of_digits fun c member => .inl (isLowerDigit_of_mem_encode member), encode,
    String.toList_ofList]
  exact decodePairs?_go_encode [] bytes

theorem isSome_decode?_iff (text : String) :
    (decode? text).isSome ↔ text.utf8ByteSize % 2 = 0 ∧ ∀ c ∈ text.toList, IsDigit c := by
  have size : text.toUTF8.data.toList.length = text.utf8ByteSize := by
    rw [String.toUTF8_eq_toByteArray]
    rfl
  rw [decode?, decodePairs?, isSome_decodePairs?_go_iff, size, toUTF8_eq_flatMap,
    List.forall_mem_flatMap]
  simp only [forall_utf8EncodeChar_iff]

theorem encode_of_decode? {text : String} {bytes : List UInt8} (read : decode? text = some bytes) :
    encode bytes = text.toLower := by
  have digits := ((isSome_decode?_iff text).1 (by rw [read]; rfl)).2
  rw [decode?, toUTF8_of_digits digits] at read
  have lowered : text.toLower.toList = text.toList.map Char.toLower := String.toList_map
  apply String.toList_inj.1
  rw [encode, String.toList_ofList, encode_of_decodePairs?_go read, lowered, List.map_map]
  apply List.map_congr_left
  intro c member
  rw [Function.comp_apply, ofUInt8_toUInt8_of_ascii (utf8Size_of_isDigit (digits c member))]

end Covenant.Hex
