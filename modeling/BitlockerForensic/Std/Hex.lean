import Mathlib.Data.List.DropRight
import BitlockerForensic.Std.Bytes

/-!
# Hexadecimal texts of a fixed width

The digits that `{:0w$x}` writes for a number below `16 ^ w`, and two of them
for each byte of a list.
-/

namespace RustStd

/-- The digits `0` to `9` and `a` to `f`. -/
def lowerHexDigits : List Char := (List.range 16).map Nat.digitChar

def hexDigits : ℕ → ℕ → List Char
  | 0, _ => []
  | w + 1, n => hexDigits w (n / 16) ++ [Nat.digitChar (n % 16)]

def hexDigitValue (c : Char) : ℕ := if c.toNat < 58 then c.toNat - 48 else c.toNat - 87

def hexValue (digits : List Char) : ℕ := digits.foldl (fun n c ↦ 16 * n + hexDigitValue c) 0

/-! ## One digit -/

theorem digitChar_mem {d : ℕ} (h : d < 16) : Nat.digitChar d ∈ lowerHexDigits :=
  List.mem_map.mpr ⟨d, List.mem_range.mpr h, rfl⟩

theorem hexDigitValue_digitChar {d : ℕ} (h : d < 16) : hexDigitValue (Nat.digitChar d) = d := by
  have hall : ∀ d < 16, hexDigitValue (Nat.digitChar d) = d := by decide
  exact hall d h

theorem hexDigitValue_lt {c : Char} (h : c ∈ lowerHexDigits) : hexDigitValue c < 16 := by
  obtain ⟨d, hd, rfl⟩ := List.mem_map.mp h
  have hlt := List.mem_range.mp hd
  rwa [hexDigitValue_digitChar hlt]

theorem digitChar_hexDigitValue {c : Char} (h : c ∈ lowerHexDigits) :
    Nat.digitChar (hexDigitValue c) = c := by
  obtain ⟨d, hd, rfl⟩ := List.mem_map.mp h
  rw [hexDigitValue_digitChar (List.mem_range.mp hd)]

/-! ## Numbers -/

@[simp] theorem length_hexDigits (w n : ℕ) : (hexDigits w n).length = w := by
  induction w generalizing n with
  | zero => rfl
  | succ w ih => rw [hexDigits, List.length_append, ih, List.length_singleton]

theorem mem_lowerHexDigits {w n : ℕ} {c : Char} (h : c ∈ hexDigits w n) : c ∈ lowerHexDigits := by
  induction w generalizing n with
  | zero => cases h
  | succ w ih =>
      rcases List.mem_append.mp h with h | h
      · exact ih h
      · rw [List.mem_singleton.mp h]
        exact digitChar_mem (Nat.mod_lt n (by decide))

theorem hexValue_append_singleton (digits : List Char) (c : Char) :
    hexValue (digits ++ [c]) = 16 * hexValue digits + hexDigitValue c := by
  rw [hexValue, List.foldl_append]
  rfl

theorem hexValue_hexDigits (w n : ℕ) : hexValue (hexDigits w n) = n % 16 ^ w := by
  induction w generalizing n with
  | zero => rw [pow_zero, Nat.mod_one]; rfl
  | succ w ih =>
      rw [hexDigits, hexValue_append_singleton, ih, hexDigitValue_digitChar
        (Nat.mod_lt n (by decide)), pow_succ', Nat.mod_mul]
      omega

theorem hexDigits_hexValue {digits : List Char} (h : ∀ c ∈ digits, c ∈ lowerHexDigits) :
    hexDigits digits.length (hexValue digits) = digits := by
  induction digits using List.reverseRecOn with
  | nil => rfl
  | append_singleton digits c ih =>
      have hc := h c (List.mem_append_right _ (List.mem_singleton.mpr rfl))
      have hlt := hexDigitValue_lt hc
      have hrest := ih fun d hd ↦ h d (List.mem_append_left _ hd)
      rw [List.length_append, List.length_singleton, hexDigits, hexValue_append_singleton,
        show (16 * hexValue digits + hexDigitValue c) / 16 = hexValue digits by omega,
        show (16 * hexValue digits + hexDigitValue c) % 16 = hexDigitValue c by omega, hrest,
        digitChar_hexDigitValue hc]

theorem hexValue_lt {digits : List Char} (h : ∀ c ∈ digits, c ∈ lowerHexDigits) :
    hexValue digits < 16 ^ digits.length := by
  rw [← hexDigits_hexValue h, hexValue_hexDigits, length_hexDigits]
  exact Nat.mod_lt _ (Nat.pow_pos (by decide))

theorem hexDigits_inj {w n m : ℕ} (hn : n < 16 ^ w) (hm : m < 16 ^ w)
    (h : hexDigits w n = hexDigits w m) : n = m := by
  have hvalue := congrArg hexValue h
  rwa [hexValue_hexDigits, hexValue_hexDigits, Nat.mod_eq_of_lt hn, Nat.mod_eq_of_lt hm] at hvalue

theorem hexDigits_zero (w : ℕ) : hexDigits w 0 = List.replicate w '0' := by
  induction w with
  | zero => rfl
  | succ w ih => rw [hexDigits, Nat.zero_div, ih, List.replicate_succ']; rfl

/-- The padded digits of a number that fits the width. -/
theorem leftpad_toDigits {w n : ℕ} (h : n < 16 ^ (w + 1)) :
    List.leftpad (w + 1) '0' (Nat.toDigits 16 n) = hexDigits (w + 1) n := by
  induction w generalizing n with
  | zero =>
      rw [Nat.toDigits_of_lt_base (by omega), hexDigits, Nat.mod_eq_of_lt (by omega)]
      rfl
  | succ w ih =>
      by_cases hn : n < 16
      · rw [Nat.toDigits_of_lt_base hn, hexDigits, Nat.div_eq_of_lt hn, hexDigits_zero,
          Nat.mod_eq_of_lt hn]
        rfl
      · have hdiv : n / 16 < 16 ^ (w + 1) := by
          rw [Nat.div_lt_iff_lt_mul (by decide), ← pow_succ]
          exact h
        rw [Nat.toDigits_of_base_le (by decide) (Nat.le_of_not_lt hn), hexDigits, ← ih hdiv,
          List.leftpad, List.leftpad, List.length_append, List.length_singleton,
          Nat.add_sub_add_right, List.append_assoc]

/-! ## Bytes -/

def hexBytes : List Char → List UInt8
  | c :: d :: rest => UInt8.ofNat (hexValue [c, d]) :: hexBytes rest
  | _ => []

def byteDigits (b : UInt8) : List Char := hexDigits 2 b.toNat

theorem byteDigits_eq (b : UInt8) :
    byteDigits b = [Nat.digitChar (b.toNat / 16 % 16), Nat.digitChar (b.toNat % 16)] := rfl

theorem hexBytes_byteDigits (b : UInt8) (rest : List Char) :
    hexBytes (byteDigits b ++ rest) = b :: hexBytes rest := by
  have hvalue := hexValue_hexDigits 2 b.toNat
  rw [Nat.mod_eq_of_lt (show b.toNat < 16 ^ 2 from b.toNat_lt), ← byteDigits,
    byteDigits_eq] at hvalue
  rw [byteDigits_eq, List.cons_append, List.singleton_append, hexBytes, hvalue, UInt8.ofNat_toNat]

theorem hexBytes_flatMap (bytes : List UInt8) : hexBytes (bytes.flatMap byteDigits) = bytes := by
  induction bytes with
  | nil => rfl
  | cons b bytes ih => rw [List.flatMap_cons, hexBytes_byteDigits, ih]

theorem length_flatMap_byteDigits (bytes : List UInt8) :
    (bytes.flatMap byteDigits).length = 2 * bytes.length := by
  induction bytes with
  | nil => rfl
  | cons b bytes ih =>
      rw [List.flatMap_cons, List.length_append, ih, byteDigits, length_hexDigits, List.length_cons]
      omega

/-- An even number of digits is that of the bytes they stand for. -/
theorem flatMap_hexBytes {n : ℕ} {digits : List Char} (hlen : digits.length = 2 * n)
    (h : ∀ c ∈ digits, c ∈ lowerHexDigits) :
    (hexBytes digits).flatMap byteDigits = digits ∧ (hexBytes digits).length = n := by
  induction n generalizing digits with
  | zero =>
      obtain rfl := List.length_eq_zero_iff.mp hlen
      exact ⟨rfl, rfl⟩
  | succ n ih =>
      obtain ⟨c, d, rest, rfl⟩ : ∃ c d rest, digits = c :: d :: rest := by
        match digits, hlen with
        | c :: d :: rest, _ => exact ⟨c, d, rest, rfl⟩
      have hpair : ∀ x ∈ [c, d], x ∈ lowerHexDigits := by
        intro x hx
        exact h x (List.mem_append_left rest hx)
      have hback := hexDigits_hexValue hpair
      have hlt : hexValue [c, d] < 256 := by
        have hc := hexDigitValue_lt (hpair c List.mem_cons_self)
        have hd := hexDigitValue_lt (hpair d (List.mem_pair.mpr (.inr rfl)))
        have hvalue : hexValue [c, d] = 16 * (16 * 0 + hexDigitValue c) + hexDigitValue d := rfl
        omega
      have hbyte : byteDigits (UInt8.ofNat (hexValue [c, d])) = [c, d] := by
        rw [byteDigits, UInt8.toNat_ofNat_of_lt' hlt]
        exact hback
      obtain ⟨hrest, hcount⟩ := @ih rest (by simp only [List.length_cons] at hlen; omega) fun x hx ↦
        h x (List.mem_cons_of_mem c (List.mem_cons_of_mem d hx))
      constructor
      · rw [hexBytes, List.flatMap_cons, hbyte, hrest]
        rfl
      · rw [hexBytes, List.length_cons, hcount]

end RustStd
