import Libunsod.Base.Strtoul

/-!
`uinet_mac_aton` of `uinet_api.c`. Each of the six fields is read by `strtoul` and has
to be two characters long. White space or a sign before one digit is two characters
as well, so such a field is taken for a byte.
-/

namespace Libunsod.Uinet

open Strtoul

def etherAddrLen : Nat := 6

def macAtonLoop : Nat → List Char → Option (List Nat)
  | 0, _ => some []
  | left + 1, p =>
      let number := strtoul 16 p
      if number.2.length + 2 ≠ p.length ∨ (left ≠ 0 ∧ number.2.head? ≠ some ':') ∨
          (left = 0 ∧ number.2 ≠ []) then none
      else (macAtonLoop left number.2.tail).map (number.1 % 256 :: ·)

def uinetMacAton : Option (List Char) → Option (List Nat)
  | none | some [] => some (List.replicate etherAddrLen 0)
  | some macstr => macAtonLoop etherAddrLen macstr

def fieldsText (field : Char × Char) (fields : List (Char × Char)) : List Char :=
  field.1 :: field.2 :: fields.flatMap fun field => [':', field.1, field.2]

/-- The six fields of a text, each with a digit in second place. -/
inductive Fields (usable : Char → Prop) : List (Char × Char) → List Char → Prop
  | intro (field : Char × Char) (fields : List (Char × Char))
      (six : (field :: fields).length = etherAddrLen)
      (digits : ∀ pair ∈ field :: fields, pair.2 ∈ xdigits)
      (leads : ∀ pair ∈ field :: fields, usable pair.1) :
      Fields usable (field :: fields) (fieldsText field fields)

/-- The strings that spell an address, and the address. -/
inductive Spells : Option (List Char) → List Nat → Prop
  | null : Spells none (List.replicate etherAddrLen 0)
  | empty : Spells (some []) (List.replicate etherAddrLen 0)
  | pairs {fields : List (Char × Char)} {text : List Char} (written : Fields (· ∈ xdigits) fields text) :
      Spells (some text) (fields.map fun field => digitValue field.2 + 16 * digitValue field.1)

/-- Six fields with a digit each, one of them with white space or a sign before it. -/
def Loose (text : List Char) : Prop :=
  ∃ fields, Fields (fun lead => lead ∈ xdigits ∨ Leads lead) fields text ∧
    ∃ field ∈ fields, field.1 ∉ xdigits

theorem macAtonLoop_step {left : Nat} {text : List Char} {bytes : List Nat} :
    macAtonLoop (left + 1) text = some bytes ↔
      ∃ lead digit rest others, text = lead :: digit :: rest ∧ digit ∈ xdigits ∧
        (lead ∈ xdigits ∨ Leads lead) ∧ (left ≠ 0 → rest.head? = some ':') ∧
        (left = 0 → rest = []) ∧ macAtonLoop left rest.tail = some others ∧
        bytes = fieldValue lead digit % 256 :: others := by
  have ends : ∀ rest : List Char, (left ≠ 0 → rest.head? = some ':') → (left = 0 → rest = []) →
      ∀ letter ∈ rest.head?, letter = ':' := by
    intro rest more last letter head
    by_cases final : left = 0
    · rw [last final] at head
      cases head
    · rw [more final] at head
      cases head
      rfl
  rw [macAtonLoop]
  constructor
  · intro read
    split at read
    · cases read
    next shape =>
      simp only [not_or, not_and, not_not, ne_eq] at shape
      obtain ⟨two, more, last⟩ := shape
      obtain ⟨lead, digit, rest, rfl, second, first, ended⟩ := strtoul_two two
      rw [ended] at more last
      rw [strtoul_field second first fun letter head => .inl (ends rest more last letter head)] at read
      obtain ⟨others, later, rfl⟩ := Option.map_eq_some_iff.mp read
      exact ⟨lead, digit, rest, others, rfl, second, first, more, last, later, rfl⟩
  · rintro ⟨lead, digit, rest, others, rfl, second, first, more, last, later, rfl⟩
    rw [strtoul_field second first fun letter head => .inl (ends rest more last letter head)]
    rw [if_neg, later, Option.map_some]
    simp only [not_or, not_and, not_not, ne_eq]
    exact ⟨rfl, more, last⟩

theorem macAtonLoop_iff {left : Nat} {text : List Char} {bytes : List Nat} :
    macAtonLoop (left + 1) text = some bytes ↔
      ∃ field fields, (∀ pair ∈ field :: fields, pair.2 ∈ xdigits) ∧
        (∀ pair ∈ field :: fields, pair.1 ∈ xdigits ∨ Leads pair.1) ∧ fields.length = left ∧
        text = fieldsText field fields ∧
        bytes = (field :: fields).map fun pair => fieldValue pair.1 pair.2 % 256 := by
  induction left generalizing text bytes with
  | zero =>
    rw [macAtonLoop_step]
    constructor
    · rintro ⟨lead, digit, rest, others, rfl, second, first, -, last, later, rfl⟩
      obtain rfl := last rfl
      cases later
      exact ⟨(lead, digit), [], by simpa using second, by simpa using first, rfl, rfl, rfl⟩
    · rintro ⟨field, fields, second, first, none_, rfl, rfl⟩
      obtain rfl := List.length_eq_zero_iff.mp none_
      exact ⟨field.1, field.2, [], [], rfl, second field (.head _), first field (.head _),
        fun positive => absurd rfl positive, fun _ => rfl, rfl, rfl⟩
  | succ left ih =>
    rw [macAtonLoop_step]
    constructor
    · rintro ⟨lead, digit, rest, others, rfl, second, first, more, -, later, rfl⟩
      obtain ⟨field, fields, seconds, firsts, length, shape, rfl⟩ := ih.mp later
      have split : rest = ':' :: rest.tail := by
        cases rest with
        | nil => cases more (Nat.succ_ne_zero left)
        | cons letter tail =>
          cases more (Nat.succ_ne_zero left)
          rfl
      refine ⟨(lead, digit), field :: fields, List.forall_mem_cons.mpr ⟨second, seconds⟩,
        List.forall_mem_cons.mpr ⟨first, firsts⟩, congrArg (· + 1) length, ?_, rfl⟩
      rw [split, shape]
      rfl
    · rintro ⟨field, fields, second, first, length, rfl, rfl⟩
      cases fields with
      | nil => cases length
      | cons next fields =>
        rw [List.forall_mem_cons] at second first
        exact ⟨field.1, field.2, _, _, rfl, second.1, first.1, fun _ => rfl,
          fun zero => absurd zero (Nat.succ_ne_zero left),
          ih.mpr ⟨next, fields, second.2, first.2, Nat.succ.inj length, rfl, rfl⟩, rfl⟩

theorem fieldValue_hex {lead digit : Char} (first : lead ∈ xdigits) (second : digit ∈ xdigits) :
    fieldValue lead digit % 256 = digitValue digit + 16 * digitValue lead := by
  have low := (xdigits_read digit second).1
  have high := (xdigits_read lead first).1
  rw [fieldValue, if_pos first, Nat.mod_eq_of_lt (by omega)]

theorem uinetMacAton_iff {text : List Char} {bytes : List Nat} (some_ : text ≠ []) :
    uinetMacAton (some text) = some bytes ↔
      ∃ fields, Fields (fun lead => lead ∈ xdigits ∨ Leads lead) fields text ∧
        bytes = fields.map fun pair => fieldValue pair.1 pair.2 % 256 := by
  have loop : uinetMacAton (some text) = macAtonLoop (5 + 1) text := by
    cases text with
    | nil => exact absurd rfl some_
    | cons letter rest => rfl
  rw [loop, macAtonLoop_iff]
  constructor
  · rintro ⟨field, fields, second, first, length, rfl, rfl⟩
    exact ⟨field :: fields, .intro field fields (congrArg (· + 1) length) second first, rfl⟩
  · rintro ⟨_, ⟨field, fields, six, second, first⟩, rfl⟩
    exact ⟨field, fields, second, first, Nat.succ.inj six, rfl, rfl⟩

theorem flatMap_fields_inj {left right : List (Char × Char)}
    (same : left.flatMap (fun field => [':', field.1, field.2]) =
      right.flatMap fun field => [':', field.1, field.2]) : left = right := by
  induction left generalizing right with
  | nil =>
    cases right with
    | nil => rfl
    | cons field fields => cases same
  | cons field fields ih =>
    cases right with
    | nil => cases same
    | cons other others =>
      simp only [List.flatMap_cons, List.cons_append, List.cons.injEq, true_and,
        List.nil_append] at same
      rw [Prod.ext same.1 same.2.1, ih same.2.2]

theorem Fields.unique {one two : Char → Prop} {left right : List (Char × Char)} {text : List Char}
    (first : Fields one left text) (second : Fields two right text) : left = right := by
  obtain ⟨field, fields, -, -, -⟩ := first
  generalize same : fieldsText field fields = text at second
  obtain ⟨other, others, -, -, -⟩ := second
  simp only [fieldsText, List.cons.injEq] at same
  rw [Prod.ext same.1 same.2.1, flatMap_fields_inj same.2.2]

theorem Spells.strict {text : List Char} {bytes : List Nat} (spelled : Spells (some text) bytes)
    (some_ : text ≠ []) : ∃ fields, Fields (· ∈ xdigits) fields text ∧
      bytes = fields.map fun field => digitValue field.2 + 16 * digitValue field.1 := by
  cases spelled with
  | empty => exact absurd rfl some_
  | pairs written => exact ⟨_, written, rfl⟩

/-- The addresses are spelled as `uinet_mac_aton` takes them, but for the strings with
white space or a sign in a field. -/
theorem uinetMacAton_exact_iff (macstr : Option (List Char)) :
    (∀ bytes, uinetMacAton macstr = some bytes ↔ Spells macstr bytes) ↔
      ∀ text, macstr = some text → ¬Loose text := by
  rcases macstr with - | - | ⟨letter, rest⟩
  · refine iff_of_true (fun bytes => ⟨?_, ?_⟩) (by rintro text ⟨⟩)
    · rintro ⟨⟩
      exact .null
    · rintro ⟨⟩
      rfl
  · refine iff_of_true (fun bytes => ⟨?_, ?_⟩) ?_
    · rintro ⟨⟩
      exact .empty
    · rintro (- | - | ⟨⟨⟩⟩)
      rfl
    · rintro text ⟨⟩ ⟨fields, written, -⟩
      cases written
  · have read : ∀ bytes, uinetMacAton (some (letter :: rest)) = some bytes ↔ _ :=
      fun bytes => uinetMacAton_iff (List.cons_ne_nil letter rest)
    constructor
    · rintro exact_ text ⟨⟩ ⟨fields, written, field, member, loose⟩
      obtain ⟨pairs, strict, -⟩ := ((exact_ _).mp ((read _).mpr ⟨fields, written, rfl⟩)).strict
        (List.cons_ne_nil letter rest)
      obtain rfl := written.unique strict
      obtain ⟨_, _, -, -, hex⟩ := strict
      exact loose (hex field member)
    · intro strict bytes
      rw [read]
      constructor
      · rintro ⟨fields, written, rfl⟩
        have hex : ∀ field ∈ fields, field.1 ∈ xdigits := by
          intro field member
          by_contra loose
          exact strict _ rfl ⟨fields, written, field, member, loose⟩
        obtain ⟨field, fields, six, digits, -⟩ := written
        have values := List.map_congr_left fun pair member =>
          fieldValue_hex (hex pair member) (digits pair member)
        rw [values]
        exact .pairs (.intro field fields six digits hex)
      · intro spelled
        obtain ⟨fields, written, rfl⟩ := spelled.strict (List.cons_ne_nil letter rest)
        generalize letter :: rest = text at written
        obtain ⟨field, fields, six, digits, hex⟩ := written
        refine ⟨_, .intro field fields six digits fun pair member => .inl (hex pair member), ?_⟩
        exact List.map_congr_left fun pair member =>
          (fieldValue_hex (hex pair member) (digits pair member)).symm

theorem uinetMacAton_takes_signs :
    uinetMacAton (some " 1:-2:+3:04:05:06".toList) = some [1, 254, 3, 4, 5, 6] ∧
      ∀ bytes, ¬Spells (some " 1:-2:+3:04:05:06".toList) bytes := by
  refine ⟨by decide, fun bytes spelled => ?_⟩
  obtain ⟨fields, written, -⟩ := spelled.strict (by decide)
  generalize same : " 1:-2:+3:04:05:06".toList = text at written
  obtain ⟨field, fields, -, -, hex⟩ := written
  have blank : ' ' = field.1 := (List.cons.inj same).1
  exact absurd (blank ▸ hex field (.head _)) (by decide)

end Libunsod.Uinet
