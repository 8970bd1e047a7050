import Mathlib.Data.BitVec
import Mathlib.Data.Nat.Digits.Lemmas

/-!
Reading numbers as the C library's `strtoul` does: it skips white space, a sign and, in
base 16, `0x`, saturates, and stops at the first character that is no digit.
-/

namespace Strtoul

variable {tail : List Char}

def xdigits : List Char := "0123456789abcdefABCDEF".toList

def digitValue (letter : Char) : Nat :=
  let index := xdigits.idxOf letter
  if index < 16 then index else index - 6

def isSpace (letter : Char) : Bool :=
  letter = ' ' || 9 ≤ letter.toNat && letter.toNat ≤ 13

def skipHex (base : Nat) : List Char → List Char
  | '0' :: mark :: digit :: rest =>
      if base = 16 ∧ (mark = 'x' ∨ mark = 'X') ∧ digitValue digit < 16 then digit :: rest
      else '0' :: mark :: digit :: rest
  | text => text

def unsign (text : List Char) : List Char :=
  if text.head? = some '-' ∨ text.head? = some '+' then text.tail else text

def strtoul (base : Nat) (text : List Char) : Nat × List Char :=
  let signed := text.dropWhile isSpace
  let body := skipHex base (unsign signed)
  let number := body.takeWhile fun letter => digitValue letter < base
  if number = [] then (0, text)
  else
    let value := Nat.ofDigits base (number.reverse.map digitValue)
    (if 2 ^ 64 ≤ value then 2 ^ 64 - 1
      else if signed.head? = some '-' then (2 ^ 64 - value) % 2 ^ 64
      else value,
      body.dropWhile fun letter => digitValue letter < base)

theorem strtoul_of_number {base : Nat} {text signed number : List Char}
    (skipped : text.dropWhile isSpace = signed)
    (body : skipHex base (unsign signed) = number ++ tail) (some_ : number ≠ [])
    (inside : ∀ letter ∈ number, digitValue letter < base)
    (ends : ∀ letter ∈ tail.head?, ¬digitValue letter < base) :
    strtoul base text =
      (if 2 ^ 64 ≤ Nat.ofDigits base (number.reverse.map digitValue) then 2 ^ 64 - 1
        else if signed.head? = some '-' then
          (2 ^ 64 - Nat.ofDigits base (number.reverse.map digitValue)) % 2 ^ 64
        else Nat.ofDigits base (number.reverse.map digitValue), tail) := by
  have holds : ∀ letter ∈ number, decide (digitValue letter < base) = true :=
    fun letter member => decide_eq_true (inside letter member)
  have stops : tail.takeWhile (fun letter => digitValue letter < base) = [] ∧
      tail.dropWhile (fun letter => digitValue letter < base) = tail := by
    cases tail with
    | nil => exact ⟨rfl, rfl⟩
    | cons letter rest => simp [ends letter rfl]
  simp only [strtoul, skipped, body, List.takeWhile_append_of_pos holds,
    List.dropWhile_append_of_pos holds, stops.1, stops.2, List.append_nil, some_, if_false]

section Hex

variable {lead digit : Char} {text rest : List Char}

theorem xdigits_read : ∀ letter ∈ xdigits, digitValue letter < 16 ∧ isSpace letter = false ∧
    letter ≠ '-' ∧ letter ≠ '+' ∧ letter ≠ 'x' ∧ letter ≠ 'X' ∧ letter ≠ ':' := by
  exact @of_decide_eq_true _ (List.decidableBAll _ _) rfl

theorem mem_xdigits_of_value {letter : Char} (small : digitValue letter < 16) :
    letter ∈ xdigits := by
  refine List.idxOf_lt_length_iff.mp ?_
  have size : xdigits.length = 22 := rfl
  simp only [digitValue] at small
  split at small <;> omega

def Leads (lead : Char) : Prop := isSpace lead = true ∨ lead = '-' ∨ lead = '+'

def fieldValue (lead digit : Char) : Nat :=
  if lead ∈ xdigits then digitValue digit + 16 * digitValue lead
  else if lead = '-' then (2 ^ 64 - digitValue digit) % 2 ^ 64
  else digitValue digit

theorem unsign_length (text : List Char) : (unsign text).length ≤ text.length := by
  unfold unsign
  split
  · rw [List.length_tail]
    omega
  · exact Nat.le_refl _

theorem skipHex_cases (text : List Char) :
    skipHex 16 text = text ∨ (skipHex 16 text).length + 2 = text.length := by
  unfold skipHex
  split
  · split
    · exact .inr rfl
    · exact .inl rfl
  · exact .inl rfl

theorem unsign_digit {letter : Char} (digit : letter ∈ xdigits) (rest : List Char) :
    unsign (letter :: rest) = letter :: rest := by
  obtain ⟨-, -, minus, plus, -⟩ := xdigits_read letter digit
  simp [unsign, minus, plus]

theorem strtoul_field (second : digit ∈ xdigits) (first : lead ∈ xdigits ∨ Leads lead)
    (ends : ∀ letter ∈ rest.head?, letter = ':' ∨ letter = '-') :
    strtoul 16 (lead :: digit :: rest) = (fieldValue lead digit, rest) := by
  obtain ⟨small, space, minus, -, lower, upper, -⟩ := xdigits_read digit second
  have stops : ∀ letter ∈ rest.head?, ¬digitValue letter < 16 := by
    intro letter head
    rcases ends letter head with rfl | rfl <;> decide
  have single : skipHex 16 (digit :: rest) = [digit] ++ rest := by
    unfold skipHex
    split
    next mark digit rest shape =>
      cases shape
      rcases ends mark rfl with rfl | rfl <;> simp
    · rfl
  have inside : ∀ letter ∈ [digit], digitValue letter < 16 := by simpa using small
  rcases first with hex | leads
  · obtain ⟨leadSmall, leadSpace, leadMinus, -⟩ := xdigits_read lead hex
    have body : skipHex 16 (unsign (lead :: digit :: rest)) = [lead, digit] ++ rest := by
      rw [unsign_digit hex]
      unfold skipHex
      split
      next mark digit rest shape =>
        cases shape
        simp [lower, upper]
      · rfl
    rw [strtoul_of_number (by simp [leadSpace]) body (by simp) (by simpa using ⟨leadSmall, small⟩)
      stops]
    have bound : ¬2 ^ 64 ≤ digitValue digit + 16 * digitValue lead := by omega
    simp only [List.reverse_cons, List.reverse_nil, List.nil_append, List.cons_append, List.map_cons,
      List.map_nil, Nat.ofDigits_cons, Nat.ofDigits_nil, Nat.mul_zero, Nat.add_zero, bound, if_false,
      List.head?_cons, Option.some.injEq, leadMinus, fieldValue, hex, if_true]
  · have bound : ¬2 ^ 64 ≤ digitValue digit := by omega
    have outside : lead ∉ xdigits := by
      intro hex
      obtain ⟨-, leadSpace, minus, plus, -⟩ := xdigits_read lead hex
      rcases leads with spaced | rfl | rfl
      · rw [leadSpace] at spaced
        cases spaced
      · exact minus rfl
      · exact plus rfl
    have value : Nat.ofDigits 16 ([digit].reverse.map digitValue) = digitValue digit := by simp
    rcases leads with spaced | rfl | rfl
    · have body : skipHex 16 (unsign (digit :: rest)) = [digit] ++ rest := by
        rw [unsign_digit second, single]
      have different : lead ≠ '-' := by
        rintro rfl
        cases spaced
      rw [strtoul_of_number (by simp [spaced, space]) body (by simp) inside stops, value]
      simp only [bound, if_false, List.head?_cons, Option.some.injEq, minus, fieldValue, outside,
        different]
    · have signed : ('-' :: digit :: rest).dropWhile isSpace = '-' :: digit :: rest := rfl
      rw [strtoul_of_number signed single (by simp) inside stops, value]
      simp only [bound, if_false, List.head?_cons, if_true, fieldValue, outside]
    · have signed : ('+' :: digit :: rest).dropWhile isSpace = '+' :: digit :: rest := rfl
      rw [strtoul_of_number signed single (by simp) inside stops, value]
      have different : '+' ≠ '-' := by decide
      simp only [bound, if_false, List.head?_cons, Option.some.injEq, different, fieldValue, outside]

theorem skipHex_body {holds : Char → Bool} {count : Nat}
    (some_ : (skipHex 16 text).takeWhile holds ≠ [])
    (left : ((skipHex 16 text).dropWhile holds).length = count) :
    count < text.length ∧ (text.length ≤ count + 2 → skipHex 16 text = text) := by
  have shorter : count < (skipHex 16 text).length := by
    have total := congrArg List.length (List.takeWhile_append_dropWhile (p := holds)
      (l := skipHex 16 text))
    have positive := List.length_pos_iff.mpr some_
    rw [List.length_append] at total
    omega
  rcases skipHex_cases text with same | skips
  · rw [same] at shorter
    exact ⟨shorter, fun _ => same⟩
  · exact ⟨by omega, fun few => by omega⟩

theorem digit_of_takeWhile {letter : Char}
    (some_ : ((letter :: rest).takeWhile fun letter => digitValue letter < 16) ≠ []) :
    letter ∈ xdigits := by
  by_contra outside
  have stops : ¬digitValue letter < 16 := fun small => outside (mem_xdigits_of_value small)
  exact some_ (List.takeWhile_cons_of_neg (by simpa using stops))

theorem strtoul_two (two : (strtoul 16 text).2.length + 2 = text.length) :
    ∃ lead digit rest, text = lead :: digit :: rest ∧ digit ∈ xdigits ∧
      (lead ∈ xdigits ∨ Leads lead) ∧ (strtoul 16 text).2 = rest := by
  rcases text with - | ⟨lead, - | ⟨digit, rest⟩⟩
  · simp at two
  · simp at two
  have some_ : (skipHex 16 (unsign ((lead :: digit :: rest).dropWhile isSpace))).takeWhile
      (fun letter => digitValue letter < 16) ≠ [] := by
    intro none_
    simp only [strtoul, none_, if_true, List.length_cons] at two
    omega
  have ended : (strtoul 16 (lead :: digit :: rest)).2 =
      (skipHex 16 (unsign ((lead :: digit :: rest).dropWhile isSpace))).dropWhile
        fun letter => digitValue letter < 16 := by
    simp only [strtoul, some_, if_false]
  have left : ((skipHex 16 (unsign ((lead :: digit :: rest).dropWhile isSpace))).dropWhile
      fun letter => digitValue letter < 16).length = rest.length := by
    rw [← ended]
    simpa using two
  rw [ended]
  obtain ⟨longer, unskipped⟩ := skipHex_body some_ left
  have alone : unsign ((lead :: digit :: rest).dropWhile isSpace) = digit :: rest →
      digit ∈ xdigits ∧ (skipHex 16 (unsign ((lead :: digit :: rest).dropWhile isSpace))).dropWhile
        (fun letter => digitValue letter < 16) = rest := by
    intro body
    rw [body] at some_ left unskipped ⊢
    rw [unskipped (by simp)] at some_ left ⊢
    have hex := digit_of_takeWhile some_
    rw [List.dropWhile_cons_of_pos (by simpa using (xdigits_read digit hex).1)] at left ⊢
    exact ⟨hex, (List.dropWhile_suffix _).eq_of_length left⟩
  by_cases spaced : isSpace lead = true
  · have signed : (lead :: digit :: rest).dropWhile isSpace = (digit :: rest).dropWhile isSpace :=
      List.dropWhile_cons_of_pos spaced
    rw [signed] at longer
    have body : unsign ((digit :: rest).dropWhile isSpace) = digit :: rest := by
      by_cases again : isSpace digit = true
      · rw [List.dropWhile_cons_of_pos again] at longer
        have shorter := unsign_length (rest.dropWhile isSpace)
        have suffix := (List.dropWhile_suffix isSpace (l := rest)).length_le
        omega
      · rw [List.dropWhile_cons_of_neg again] at longer ⊢
        unfold unsign at longer ⊢
        split at longer
        · simp at longer
        next plain => exact if_neg plain
    obtain ⟨hex, rest_⟩ := alone (by rw [signed, body])
    exact ⟨lead, digit, rest, rfl, hex, .inr (.inl spaced), rest_⟩
  · have signed : (lead :: digit :: rest).dropWhile isSpace = lead :: digit :: rest :=
      List.dropWhile_cons_of_neg spaced
    by_cases sign : lead = '-' ∨ lead = '+'
    · obtain ⟨hex, rest_⟩ := alone (by rw [signed, unsign, if_pos (by simpa using sign)]; rfl)
      exact ⟨lead, digit, rest, rfl, hex, .inr (.inr sign), rest_⟩
    · have body : unsign (lead :: digit :: rest) = lead :: digit :: rest :=
        if_neg (by simpa using sign)
      rw [signed, body] at some_ left unskipped ⊢
      rw [unskipped (by simp)] at some_ left ⊢
      have hex := digit_of_takeWhile some_
      rw [List.dropWhile_cons_of_pos (by simpa using (xdigits_read lead hex).1)] at left ⊢
      have second : digit ∈ xdigits := by
        by_contra outside
        have stops : ¬digitValue digit < 16 := fun small => outside (mem_xdigits_of_value small)
        rw [List.dropWhile_cons_of_neg (by simpa using stops)] at left
        simp at left
      rw [List.dropWhile_cons_of_pos (by simpa using (xdigits_read digit second).1)] at left ⊢
      exact ⟨lead, digit, rest, rfl, second, .inl hex, (List.dropWhile_suffix _).eq_of_length left⟩

end Hex

end Strtoul
