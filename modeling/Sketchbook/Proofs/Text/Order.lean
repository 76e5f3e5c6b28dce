import Sketchbook.Proofs.Text.Lines

/-! Texts are ordered as their bytes are. The first byte of a character tells how many there are
and is larger the more there are, so the bytes of two characters differ in the same direction as
the characters do, and that decides, whatever stands behind them. -/
namespace Sketchbook.Text

inductive CharBytes : Nat → Bytes → Prop where
  | one {n : Nat} (h : n ≤ 0x7F) : CharBytes n [UInt8.ofNat n]
  | two {n : Nat} (hlow : 0x7F < n) (h : n ≤ 0x7FF) :
      CharBytes n [UInt8.ofNat (n / 64 % 32 + 192), UInt8.ofNat (n % 64 + 128)]
  | three {n : Nat} (hlow : 0x7FF < n) (h : n ≤ 0xFFFF) :
      CharBytes n [UInt8.ofNat (n / 4096 % 16 + 224), UInt8.ofNat (n / 64 % 64 + 128),
        UInt8.ofNat (n % 64 + 128)]
  | four {n : Nat} (hlow : 0xFFFF < n) (h : n ≤ 0x10FFFF) :
      CharBytes n [UInt8.ofNat (n / 262144 % 8 + 240), UInt8.ofNat (n / 4096 % 64 + 128),
        UInt8.ofNat (n / 64 % 64 + 128), UInt8.ofNat (n % 64 + 128)]

theorem charBytes_utf8EncodeChar (c : Char) : CharBytes c.toNat (String.utf8EncodeChar c) := by
  have hvalue : c.val.toNat = c.toNat := rfl
  have hmax : c.toNat ≤ 0x10FFFF := by
    rcases c.valid with h | h
    · exact Nat.le_of_lt (Nat.lt_trans h (by decide))
    · exact Nat.le_of_lt_succ h.2
  unfold String.utf8EncodeChar
  simp only [hvalue]
  split
  · next h => exact .one h
  split
  · next hlow h => exact .two (Nat.lt_of_not_le hlow) h
  split
  · next hlow h => exact .three (Nat.lt_of_not_le hlow) h
  · next hlow => exact .four (Nat.lt_of_not_le hlow) hmax

/-- Bytes are compared one after the other until two of them differ. -/
theorem ofNat_cons_lt {m n : Nat} (hn : n < 256) (hle : m ≤ n) {xs ys : Bytes}
    (h : m = n → xs < ys) : UInt8.ofNat m :: xs < UInt8.ofNat n :: ys := by
  rw [List.cons_lt_cons_iff]
  by_cases hsame : m = n
  · exact .inr ⟨congrArg UInt8.ofNat hsame, h hsame⟩
  · left
    rw [UInt8.lt_iff_toNat_lt, UInt8.toNat_ofNat', UInt8.toNat_ofNat']
    omega

/-- The bytes of a smaller character come first, whatever stands behind them. -/
theorem CharBytes.append_lt {m n : Nat} {bytes others : Bytes} (hm : CharBytes m bytes)
    (hn : CharBytes n others) (h : m < n) (xs ys : Bytes) : bytes ++ xs < others ++ ys := by
  -- where the first bytes are equal so are the lengths, and one of the next bytes decides
  cases hm with
  | one => cases hn <;> exact ofNat_cons_lt (by omega) (by omega) fun _ => by omega
  | two =>
    cases hn with
    | one => omega
    | two =>
      exact ofNat_cons_lt (by omega) (by omega) fun _ =>
        ofNat_cons_lt (by omega) (by omega) fun _ => by omega
    | three | four => exact ofNat_cons_lt (by omega) (by omega) fun _ => by omega
  | three =>
    cases hn with
    | one | two => omega
    | three =>
      exact ofNat_cons_lt (by omega) (by omega) fun _ =>
        ofNat_cons_lt (by omega) (by omega) fun _ =>
          ofNat_cons_lt (by omega) (by omega) fun _ => by omega
    | four => exact ofNat_cons_lt (by omega) (by omega) fun _ => by omega
  | four =>
    cases hn with
    | one | two | three => omega
    | four =>
      exact ofNat_cons_lt (by omega) (by omega) fun _ =>
        ofNat_cons_lt (by omega) (by omega) fun _ =>
          ofNat_cons_lt (by omega) (by omega) fun _ =>
            ofNat_cons_lt (by omega) (by omega) fun _ => by omega

theorem flatMap_utf8EncodeChar_lt {cs ds : List Char} (h : cs < ds) :
    cs.flatMap String.utf8EncodeChar < ds.flatMap String.utf8EncodeChar := by
  induction ds generalizing cs with
  | nil => exact absurd h (List.not_lt_nil cs)
  | cons d ds ih =>
    rw [List.flatMap_cons]
    cases cs with
    | nil =>
      obtain ⟨b, bytes, hbytes⟩ :=
        List.exists_cons_of_ne_nil (String.utf8EncodeChar_ne_nil (c := d))
      rw [hbytes]
      exact List.nil_lt_cons _ _
    | cons c cs =>
      rw [List.flatMap_cons]
      cases List.cons_lt_cons_iff.mp h with
      | inl hlt =>
        exact (charBytes_utf8EncodeChar c).append_lt (charBytes_utf8EncodeChar d) hlt _ _
      | inr hsame =>
        rw [hsame.1]
        exact List.append_left_lt (ih hsame.2)

theorem encode_lt_encode {s t : String} (h : s < t) : encode s < encode t := by
  rw [encode_eq, encode_eq]
  exact flatMap_utf8EncodeChar_lt h

end Sketchbook.Text
