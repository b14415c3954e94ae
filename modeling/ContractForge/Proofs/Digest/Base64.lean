import ContractForge.Digest.Base64

/-!
# Reading base64 text

* `alphabet` : the sixty-four characters, each at the place of its value.
* `decode?` : the bytes of a text. Only a text of whole groups is read, with padding in its last
  group alone and zeros for the bits that the padding cuts off.

`decode?_encode` : the text of a byte sequence is read back. It has no characters but those of the
alphabet and the padding.
-/

namespace ContractForge.Base64

/-- The characters that stand for a value, in the order of their values. -/
def alphabet : List Char :=
  "ABCDEFGHIJKLMNOPQRSTUVWXYZabcdefghijklmnopqrstuvwxyz0123456789+/".toList

/-- The value that a character stands for. -/
def value? (c : Char) : Option Nat :=
  alphabet.idxOf? c

/-- The three bytes of a group without padding. -/
def wholeGroup? (w x y z : Char) : Option (List UInt8) :=
  match value? w, value? x, value? y, value? z with
  | some a, some b, some c, some d =>
    some [.ofNat (a * 4 + b / 16), .ofNat (b % 16 * 16 + c / 4), .ofNat (c % 4 * 64 + d)]
  | _, _, _, _ => none

/-- The bytes of a group that one or two padding characters end. -/
def paddedGroup? (w x y : Char) : Option (List UInt8) :=
  match value? w, value? x with
  | some a, some b =>
    if y = '=' then
      if b % 16 = 0 then some [.ofNat (a * 4 + b / 16)] else none
    else
      match value? y with
      | some c =>
        if c % 4 = 0 then some [.ofNat (a * 4 + b / 16), .ofNat (b % 16 * 16 + c / 4)] else none
      | none => none
  | _, _ => none

/-- The bytes of a padded base64 text. -/
def decode? : List Char → Option (List UInt8)
  | [] => some []
  | w :: x :: y :: z :: rest =>
    if z = '=' then if rest = [] then paddedGroup? w x y else none
    else
      match wholeGroup? w x y z, decode? rest with
      | some group, some bytes => some (group ++ bytes)
      | _, _ => none
  | _ => none

/-! ### Digits -/

theorem value?_digit {n : Nat} (h : n < 64) : value? (digit n) = some n := by
  revert n; decide

theorem digit_ne_padding {n : Nat} (h : n < 64) : digit n ≠ '=' := by
  revert n; decide

theorem wholeGroup?_digit {a b c d : Nat} (ha : a < 64) (hb : b < 64) (hc : c < 64) (hd : d < 64) :
    wholeGroup? (digit a) (digit b) (digit c) (digit d) =
      some [.ofNat (a * 4 + b / 16), .ofNat (b % 16 * 16 + c / 4), .ofNat (c % 4 * 64 + d)] := by
  simp only [wholeGroup?, value?_digit ha, value?_digit hb, value?_digit hc, value?_digit hd]

/-! ### The round trip -/

/-- A byte is the number that its high and low bits make up. -/
theorem ofNat_eq_of_toNat {n : Nat} {b : UInt8} (h : n = b.toNat) : UInt8.ofNat n = b := by
  rw [h, UInt8.ofNat_toNat]

/-- The text of a byte sequence is read back. -/
theorem decode?_encode (bytes : List UInt8) : decode? (encode bytes) = some bytes := by
  fun_induction encode bytes with
  | case1 => rfl
  | case2 a =>
    have ha := a.toNat_lt
    have hzero : a.toNat % 4 * 16 % 16 = 0 := by omega
    have hbyte := ofNat_eq_of_toNat
      (show a.toNat / 4 * 4 + a.toNat % 4 * 16 / 16 = a.toNat by omega)
    rw [decode?, if_pos rfl, if_pos rfl, paddedGroup?, value?_digit (by omega),
      value?_digit (by omega)]
    simp only [if_pos, hzero, hbyte]
  | case3 a b =>
    have ha := a.toNat_lt
    have hb := b.toNat_lt
    have hzero : b.toNat % 16 * 4 % 4 = 0 := by omega
    have hfirst := ofNat_eq_of_toNat
      (show a.toNat / 4 * 4 + (a.toNat % 4 * 16 + b.toNat / 16) / 16 = a.toNat by omega)
    have hsecond := ofNat_eq_of_toNat
      (show (a.toNat % 4 * 16 + b.toNat / 16) % 16 * 16 + b.toNat % 16 * 4 / 4 = b.toNat by omega)
    rw [decode?, if_pos rfl, if_pos rfl, paddedGroup?, value?_digit (by omega),
      value?_digit (by omega)]
    simp only [if_neg (digit_ne_padding (show b.toNat % 16 * 4 < 64 by omega)),
      value?_digit (show b.toNat % 16 * 4 < 64 by omega), if_pos, hzero, hfirst, hsecond]
  | case4 a b c rest ih =>
    have ha := a.toNat_lt
    have hb := b.toNat_lt
    have hc := c.toNat_lt
    have hfirst := ofNat_eq_of_toNat
      (show a.toNat / 4 * 4 + (a.toNat % 4 * 16 + b.toNat / 16) / 16 = a.toNat by omega)
    have hsecond := ofNat_eq_of_toNat
      (show (a.toNat % 4 * 16 + b.toNat / 16) % 16 * 16 + (b.toNat % 16 * 4 + c.toNat / 64) / 4 =
        b.toNat by omega)
    have hthird := ofNat_eq_of_toNat
      (show (b.toNat % 16 * 4 + c.toNat / 64) % 4 * 64 + c.toNat % 64 = c.toNat by omega)
    rw [decode?, if_neg (digit_ne_padding (by omega)), ih,
      wholeGroup?_digit (by omega) (by omega) (by omega) (by omega), hfirst, hsecond, hthird]
    rfl

/-! ### The characters of a text -/

theorem digit_mem_alphabet {n : Nat} (h : n < 64) : digit n ∈ alphabet := by
  revert n; decide

theorem mem_alphabet_of_mem_encode {bytes : List UInt8} {c : Char} (h : c ∈ encode bytes) :
    c ∈ alphabet ∨ c = '=' := by
  fun_induction encode bytes with
  | case1 => simp at h
  | case2 a =>
    have ha := a.toNat_lt
    simp only [List.mem_cons, List.not_mem_nil, or_false] at h
    rcases h with rfl | rfl | rfl | rfl
    · exact .inl (digit_mem_alphabet (by omega))
    · exact .inl (digit_mem_alphabet (by omega))
    · exact .inr rfl
    · exact .inr rfl
  | case3 a b =>
    have ha := a.toNat_lt
    have hb := b.toNat_lt
    simp only [List.mem_cons, List.not_mem_nil, or_false] at h
    rcases h with rfl | rfl | rfl | rfl
    · exact .inl (digit_mem_alphabet (by omega))
    · exact .inl (digit_mem_alphabet (by omega))
    · exact .inl (digit_mem_alphabet (by omega))
    · exact .inr rfl
  | case4 a b c rest ih =>
    have ha := a.toNat_lt
    have hb := b.toNat_lt
    have hc := c.toNat_lt
    simp only [List.mem_cons] at h
    rcases h with rfl | rfl | rfl | rfl | hrest
    · exact .inl (digit_mem_alphabet (by omega))
    · exact .inl (digit_mem_alphabet (by omega))
    · exact .inl (digit_mem_alphabet (by omega))
    · exact .inl (digit_mem_alphabet (by omega))
    · exact ih hrest

end ContractForge.Base64
