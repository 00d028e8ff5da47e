/-! Texts are ordered by their bytes. The order of texts compares them character by character,
and a character that comes later is written (in UTF-8) with bytes that come later: the first
byte tells how many follow, and each of those holds six bits of the character's number. -/
namespace EventScript.Text

def bytes (s : String) : List UInt8 := s.toUTF8.data.toList

theorem bytesEncoded (s : String) : bytes s = s.toList.flatMap String.utf8EncodeChar := by
  have encoded : s.toUTF8 = s.toList.utf8Encode := by
    rw [String.toUTF8_eq_toByteArray, String.utf8Encode_toList]
  rw [bytes, encoded, List.utf8Encode, List.toList_data_toByteArray]

/- A number to base 64, a digit to a byte. The first byte is marked, and takes what the `k`
digits after it leave. -/
def spelled (mark : Nat) : Nat → Nat → List UInt8
  | 0, n => [UInt8.ofNat (mark + n)]
  | k + 1, n => spelled mark k (n / 64) ++ [UInt8.ofNat (n % 64 + 0x80)]

def leading : Nat → Nat → Nat
  | 0, n => n
  | k + 1, n => leading k (n / 64)

theorem byteLess {m n : Nat} (less : m < n) (room : n < 256) : UInt8.ofNat m < UInt8.ofNat n := by
  rw [UInt8.lt_iff_toNat_lt, UInt8.toNat_ofNat_of_lt' (Nat.lt_trans less room),
    UInt8.toNat_ofNat_of_lt' room]
  exact less

theorem spelledFirst (mark k n : Nat) :
    ∃ rest, spelled mark k n = UInt8.ofNat (mark + leading k n) :: rest := by
  induction k generalizing n with
  | zero => exact ⟨[], rfl⟩
  | succ k ih =>
    obtain ⟨rest, first⟩ := ih (n / 64)
    refine ⟨rest ++ [UInt8.ofNat (n % 64 + 0x80)], ?_⟩
    rw [spelled, first, leading, List.cons_append]

theorem spelledLess {mark k m n : Nat} (less : m < n) (room : mark + leading k n < 256)
    (s t : List UInt8) : spelled mark k m ++ s < spelled mark k n ++ t := by
  induction k generalizing m n s t with
  | zero =>
    exact List.cons_lt_cons_iff.mpr (.inl (byteLess (Nat.add_lt_add_left less mark) room))
  | succ k ih =>
    simp only [spelled, List.append_assoc]
    by_cases higher : m / 64 < n / 64
    · exact ih higher room _ _
    · -- All but the last digits agree.
      have same : m / 64 = n / 64 := by omega
      rw [same]
      refine List.append_left_lt (List.cons_lt_cons_iff.mpr (.inl (byteLess ?_ ?_)))
      · omega
      · omega

/- The forms of a character's number: the mark of the first byte, and how many bytes follow. -/
inductive Form (n : Nat) : Nat → Nat → Prop where
  | one (high : n ≤ 0x7f) : Form n 0 0
  | two (low : 0x7f < n) (high : n ≤ 0x7ff) : Form n 0xc0 1
  | three (low : 0x7ff < n) (high : n ≤ 0xffff) : Form n 0xe0 2
  | four (low : 0xffff < n) (high : n ≤ 0x10ffff) : Form n 0xf0 3

namespace Form

theorem firstSmall {n mark k : Nat} (form : Form n mark k) : mark + leading k n < 256 := by
  cases form <;> simp only [leading] <;> omega

/- A longer form has a higher first byte. -/
theorem firstRises {m n a b j k : Nat} (first : Form m a j) (second : Form n b k) (less : m < n) :
    a + leading j m < b + leading k n ∨ a = b ∧ j = k := by
  cases first <;> cases second <;> simp only [leading, and_self, or_true] <;> omega

theorem spelledLess {m n a b j k : Nat} (first : Form m a j) (second : Form n b k) (less : m < n)
    (s t : List UInt8) : spelled a j m ++ s < spelled b k n ++ t := by
  rcases firstRises first second less with below | ⟨rfl, rfl⟩
  · obtain ⟨s', here⟩ := spelledFirst a j m
    obtain ⟨t', there⟩ := spelledFirst b k n
    rw [here, there]
    exact List.cons_lt_cons_iff.mpr (.inl (byteLess below second.firstSmall))
  · exact Text.spelledLess less second.firstSmall s t

theorem ofChar (c : Char) :
    ∃ mark k, Form c.toNat mark k ∧ String.utf8EncodeChar c = spelled mark k c.toNat := by
  have opened : String.utf8EncodeChar c =
      if c.toNat ≤ 0x7f then [UInt8.ofNat c.toNat]
      else if c.toNat ≤ 0x7ff then
        [UInt8.ofNat (c.toNat / 64 % 0x20 + 0xc0), UInt8.ofNat (c.toNat % 0x40 + 0x80)]
      else if c.toNat ≤ 0xffff then
        [UInt8.ofNat (c.toNat / 4096 % 0x10 + 0xe0), UInt8.ofNat (c.toNat / 64 % 0x40 + 0x80),
          UInt8.ofNat (c.toNat % 0x40 + 0x80)]
      else
        [UInt8.ofNat (c.toNat / 262144 % 0x08 + 0xf0), UInt8.ofNat (c.toNat / 4096 % 0x40 + 0x80),
          UInt8.ofNat (c.toNat / 64 % 0x40 + 0x80), UInt8.ofNat (c.toNat % 0x40 + 0x80)] := rfl
  have valid : c.toNat < 0xd800 ∨ 0xdfff < c.toNat ∧ c.toNat < 0x110000 := c.valid
  rw [opened]
  generalize c.toNat = n at valid
  split
  · rename_i high
    exact ⟨0, 0, .one high, by rw [spelled, Nat.zero_add]⟩
  split
  · rename_i low high
    have first : n / 64 % 0x20 + 0xc0 = 0xc0 + n / 64 := by omega
    exact ⟨0xc0, 1, .two (by omega) high, by rw [first]; rfl⟩
  split
  · rename_i low high
    have first : n / 4096 % 0x10 + 0xe0 = 0xe0 + n / 64 / 64 := by omega
    exact ⟨0xe0, 2, .three (by omega) high, by rw [first]; rfl⟩
  · rename_i low
    have first : n / 262144 % 0x08 + 0xf0 = 0xf0 + n / 64 / 64 / 64 := by omega
    have next : n / 4096 = n / 64 / 64 := by omega
    exact ⟨0xf0, 3, .four (by omega) (by omega), by rw [first, next]; rfl⟩

end Form

theorem encodedLess {c d : Char} (less : c < d) (s t : List UInt8) :
    String.utf8EncodeChar c ++ s < String.utf8EncodeChar d ++ t := by
  obtain ⟨_, _, first, here⟩ := Form.ofChar c
  obtain ⟨_, _, second, there⟩ := Form.ofChar d
  rw [here, there]
  exact first.spelledLess second less s t

theorem encodedAllLess {cs ds : List Char} (less : cs < ds) :
    cs.flatMap String.utf8EncodeChar < ds.flatMap String.utf8EncodeChar := by
  induction less with
  | nil =>
    rename_i d ds
    obtain ⟨b, bs, here⟩ := List.exists_cons_of_ne_nil (String.utf8EncodeChar_ne_nil (c := d))
    rw [List.flatMap_cons, here]
    exact List.nil_lt_cons b _
  | cons _ ih => exact List.append_left_lt ih
  | rel less => exact encodedLess less _ _

theorem bytesLess {s t : String} (less : s < t) : bytes s < bytes t := by
  rw [bytesEncoded, bytesEncoded]
  exact encodedAllLess less

theorem byteOrder (s t : String) : bytes s < bytes t ↔ s < t := by
  refine ⟨fun less => ?_, bytesLess⟩
  rcases Std.lt_trichotomy s t with before | rfl | behind
  · exact before
  · exact absurd less (List.lt_irrefl _)
  · exact absurd less (List.lt_asymm (bytesLess behind))

end EventScript.Text
