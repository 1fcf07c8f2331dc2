import Mathlib.Data.List.Basic

/-!
# Delimited texts

Texts put together from parts that can be taken apart again: a part ends where the
first character of its separator stands.
-/

namespace RustStd

section Separators

variable {α : Type} {s : α}

/-- Where two texts part: at the end, or at the separator. -/
theorem append_sep_inj {a b x y : List α} (ha : s ∉ a) (hb : s ∉ b)
    (hx : ∀ c ∈ x.head?, c = s) (hy : ∀ c ∈ y.head?, c = s) (h : a ++ x = b ++ y) :
    a = b ∧ x = y := by
  induction a generalizing b with
  | nil =>
      cases b with
      | nil => exact ⟨rfl, h⟩
      | cons d b =>
          rw [List.nil_append] at h
          have hd := hx d (by rw [h]; rfl)
          rw [hd] at hb
          exact absurd List.mem_cons_self hb
  | cons c a ih =>
      cases b with
      | nil =>
          rw [List.nil_append] at h
          have hc := hy c (by rw [← h]; rfl)
          rw [hc] at ha
          exact absurd List.mem_cons_self ha
      | cons d b =>
          obtain ⟨hhead, htail⟩ := List.cons.inj h
          obtain ⟨hinit, hrest⟩ := ih (mt (List.mem_cons_of_mem c) ha)
            (mt (List.mem_cons_of_mem d) hb) htail
          exact ⟨by rw [hhead, hinit], hrest⟩

theorem intercalate_cons (sep part : List α) (parts : List (List α)) :
    List.intercalate sep (part :: parts) = part ++ parts.flatMap fun p ↦ sep ++ p := by
  induction parts generalizing part with
  | nil => rw [List.intercalate_singleton, List.flatMap_nil, List.append_nil]
  | cons p parts ih =>
      rw [List.intercalate_cons_cons, ih, List.flatMap_cons, List.append_assoc, List.append_assoc]

theorem head?_flatMap_sep (rest : List α) (parts : List (List α)) :
    ∀ c ∈ (parts.flatMap fun p ↦ s :: rest ++ p).head?, c = s := by
  intro c hc
  cases parts with
  | nil => cases hc
  | cons p parts =>
      cases hc
      rfl

/-- The parts do not hold the first character of the separator. -/
theorem flatMap_sep_inj {rest : List α} {parts parts' : List (List α)}
    (h : ∀ p ∈ parts, s ∉ p) (h' : ∀ p ∈ parts', s ∉ p)
    (heq : (parts.flatMap fun p ↦ s :: rest ++ p) = parts'.flatMap fun p ↦ s :: rest ++ p) :
    parts = parts' := by
  induction parts generalizing parts' with
  | nil =>
      cases parts' with
      | nil => rfl
      | cons p' parts' => cases heq
  | cons p parts ih =>
      cases parts' with
      | nil => cases heq
      | cons p' parts' =>
          rw [List.flatMap_cons, List.flatMap_cons, List.append_assoc, List.append_assoc] at heq
          obtain ⟨hpart, htail⟩ := append_sep_inj (h p List.mem_cons_self)
            (h' p' List.mem_cons_self) (head?_flatMap_sep rest parts)
            (head?_flatMap_sep rest parts') (List.append_cancel_left heq)
          rw [hpart, ih (fun q hq ↦ h q (List.mem_cons_of_mem p hq))
            (fun q hq ↦ h' q (List.mem_cons_of_mem p' hq)) htail]

/-- Parts that are not empty can be told from a joined text. -/
theorem intercalate_inj {rest : List α} {parts parts' : List (List α)}
    (h : ∀ p ∈ parts, p ≠ [] ∧ s ∉ p) (h' : ∀ p ∈ parts', p ≠ [] ∧ s ∉ p)
    (heq : List.intercalate (s :: rest) parts = List.intercalate (s :: rest) parts') :
    parts = parts' := by
  cases parts with
  | nil =>
      cases parts' with
      | nil => rfl
      | cons p' parts' =>
          rw [intercalate_cons] at heq
          exact absurd (List.append_eq_nil_iff.mp heq.symm).1 (h' p' List.mem_cons_self).1
  | cons p parts =>
      cases parts' with
      | nil =>
          rw [intercalate_cons] at heq
          exact absurd (List.append_eq_nil_iff.mp heq).1 (h p List.mem_cons_self).1
      | cons p' parts' =>
          rw [intercalate_cons, intercalate_cons] at heq
          obtain ⟨hpart, htail⟩ := append_sep_inj (h p List.mem_cons_self).2
            (h' p' List.mem_cons_self).2 (head?_flatMap_sep rest parts)
            (head?_flatMap_sep rest parts') heq
          rw [hpart, flatMap_sep_inj (fun q hq ↦ (h q (List.mem_cons_of_mem p hq)).2)
            (fun q hq ↦ (h' q (List.mem_cons_of_mem p' hq)).2) htail]

end Separators

/-! ## Numbers -/

theorem toList_toString (n : ℕ) : (toString n).toList = Nat.toDigits 10 n := Nat.toList_repr

theorem not_mem_toString {c : Char} (hc : c.isDigit = false) (n : ℕ) :
    c ∉ (toString n).toList := by
  intro hmem
  rw [toList_toString] at hmem
  have hdigit := Nat.isDigit_of_mem_toDigits (by decide) (by decide) hmem
  rw [hc] at hdigit
  cases hdigit

theorem toString_ne_nil (n : ℕ) : (toString n).toList ≠ [] := by
  rw [toList_toString]
  exact Nat.toDigits_ne_nil

theorem toString_inj {m n : ℕ} (h : (toString m).toList = (toString n).toList) : m = n := by
  rw [toList_toString, toList_toString] at h
  have hvalue := congrArg (fun digits ↦ Nat.ofDigitChars 10 digits 0) h
  rwa [Nat.ofDigitChars_ten_toDigits, Nat.ofDigitChars_ten_toDigits] at hvalue

end RustStd
