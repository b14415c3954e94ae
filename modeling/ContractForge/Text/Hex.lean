/-!
# Hexadecimal digits

* `hexDigit n` : the lowercase digit of a value below sixteen; `hexValue?` reads either case back.
* `hexFixed width n` : the last `width` digits of a number, leading zeros included.
* `hexDigits n` : a number without leading zeros.
-/

namespace ContractForge.Text

/-- The lowercase hex digit of a value below sixteen. -/
def hexDigit (n : Nat) : Char :=
  if n < 10 then Char.ofNat ('0'.toNat + n) else Char.ofNat ('a'.toNat + (n - 10))

/-- The value of a hex digit of either case. -/
def hexValue? (c : Char) : Option Nat :=
  if '0' ≤ c ∧ c ≤ '9' then some (c.toNat - '0'.toNat)
  else if 'a' ≤ c ∧ c ≤ 'f' then some (c.toNat - 'a'.toNat + 10)
  else if 'A' ≤ c ∧ c ≤ 'F' then some (c.toNat - 'A'.toNat + 10)
  else none

theorem hexValue?_hexDigit {n : Nat} (h : n < 16) : hexValue? (hexDigit n) = some n := by
  revert n; decide

/-- A digit has its value in capitals too. -/
theorem hexValue?_toUpper (c : Char) : hexValue? c.toUpper = hexValue? c := by
  have hletter : ∀ n < 26,
      hexValue? (Char.ofNat (97 + n)).toUpper = hexValue? (Char.ofNat (97 + n)) := by
    decide
  by_cases hlower : 97 ≤ c.toNat ∧ c.toNat ≤ 122
  · have h := hletter (c.toNat - 97) (by omega)
    rwa [show 97 + (c.toNat - 97) = c.toNat by omega, Char.ofNat_toNat] at h
  · have hsame : c.toUpper = c := by
      unfold Char.toUpper
      rw [dif_neg]
      intro h
      apply hlower
      simp only [UInt32.le_iff_toNat_le] at h
      exact h
    rw [hsame]

/-- The last `width` hex digits of a number. -/
def hexFixed : Nat → Nat → List Char
  | 0, _ => []
  | width + 1, n => hexFixed width (n / 16) ++ [hexDigit (n % 16)]

@[simp] theorem length_hexFixed (width n : Nat) : (hexFixed width n).length = width := by
  induction width generalizing n with
  | zero => rfl
  | succ width ih => simp [hexFixed, ih]

theorem exists_of_mem_hexFixed {width n : Nat} {d : Char} (h : d ∈ hexFixed width n) :
    ∃ k < 16, d = hexDigit k := by
  induction width generalizing n with
  | zero => cases h
  | succ width ih =>
    rcases List.mem_append.mp h with hfront | hlast
    · exact ih hfront
    · exact ⟨n % 16, Nat.mod_lt n (by decide), List.mem_singleton.mp hlast⟩

/-- A number in hex, without leading zeros. -/
def hexDigits (n : Nat) : List Char :=
  if n < 16 then [hexDigit n] else hexDigits (n / 16) ++ [hexDigit (n % 16)]

end ContractForge.Text
