import Mathlib.Logic.Function.Basic
import Mathlib.Tactic.Common

/-!
Who owns a resource that a system has been given. A resource, called a token here, has several
parts. While a slot holds it none of them has been freed; when no slot holds it any more each of
them has been freed once.
-/

namespace Ledger

open Function (update update_of_ne update_self)

variable {Slot Token : Type} {parts : Token → Nat} {holds : Slot → Option Token}
  {handed : Token → Bool} {freed : Token → Nat → Nat}

variable {amounts : Nat → Nat}

structure Balanced (parts : Token → Nat) (holds : Slot → Option Token) (handed : Token → Bool)
    (freed : Token → Nat → Nat) : Prop where
  unique : ∀ slot other token, holds slot = some token → holds other = some token → slot = other
  known : ∀ slot token, holds slot = some token → handed token = true
  intact : ∀ slot token, holds slot = some token → ∀ part, freed token part = 0
  fresh : ∀ token, handed token = false → ∀ part, freed token part = 0
  spent : ∀ token, handed token = true → (∀ slot, holds slot ≠ some token) →
    ∀ part, part < parts token → freed token part = 1

def Accounted (parts : Token → Nat) (holds : Slot → Option Token) (handed : Token → Bool)
    (freed : Token → Nat → Nat) : Prop :=
  ∀ token, handed token = true →
    (∃ slot, holds slot = some token ∧ (∀ other, holds other = some token → other = slot) ∧
      ∀ part, freed token part = 0) ∨
    (∀ slot, holds slot ≠ some token) ∧ ∀ part, part < parts token → freed token part = 1

theorem Accounted.spent (accounted : Accounted parts holds handed freed) (token : Token)
    (given : handed token = true) (nobody : ∀ slot, holds slot ≠ some token) (part : Nat)
    (below : part < parts token) : freed token part = 1 := by
  rcases accounted token given with ⟨slot, held, _⟩ | ⟨_, whole⟩
  · exact absurd held (nobody slot)
  · exact whole part below

theorem Balanced.accounted (balanced : Balanced parts holds handed freed) :
    Accounted parts holds handed freed := by
  intro token given
  by_cases owned : ∃ slot, holds slot = some token
  · obtain ⟨slot, held⟩ := owned
    exact .inl ⟨slot, held, fun other also => balanced.unique other slot token also held,
      balanced.intact slot token held⟩
  · have nobody : ∀ slot, holds slot ≠ some token := fun slot held => owned ⟨slot, held⟩
    exact .inr ⟨nobody, balanced.spent token given nobody⟩

theorem Balanced.start : Balanced parts (fun _ : Slot => none) (fun _ => false) fun _ _ => 0 where
  unique := by rintro slot other token ⟨⟩
  known := by rintro slot token ⟨⟩
  intact := by rintro slot token ⟨⟩
  fresh := fun _ _ _ => rfl
  spent := by rintro token ⟨⟩

variable [DecidableEq Token] {token : Token}

theorem Balanced.spend (balanced : Balanced parts holds handed freed) (new : handed token = false)
    (whole : ∀ part, part < parts token → amounts part = 1) :
    Balanced parts holds (update handed token true)
      (update freed token amounts) := by
  have differs : ∀ slot owned, holds slot = some owned → owned ≠ token := by
    rintro slot owned held rfl
    rw [balanced.known slot owned held] at new
    cases new
  refine ⟨balanced.unique, ?_, ?_, ?_, ?_⟩
  · intro slot owned held
    rw [update_of_ne (differs slot owned held)]
    exact balanced.known slot owned held
  · intro slot owned held
    rw [update_of_ne (differs slot owned held)]
    exact balanced.intact slot owned held
  · intro other notGiven
    by_cases same : other = token
    · rw [same, update_self] at notGiven
      cases notGiven
    · rw [update_of_ne same] at notGiven ⊢
      exact balanced.fresh other notGiven
  · intro other given nobody
    by_cases same : other = token
    · subst same
      rw [update_self]
      exact whole
    · rw [update_of_ne same] at given ⊢
      exact balanced.spent other given nobody

variable [DecidableEq Slot] {slot : Slot}

theorem Balanced.put (balanced : Balanced parts holds handed freed) (new : handed token = false)
    (empty : holds slot = none) :
    Balanced parts (update holds slot (some token)) (update handed token true)
      freed := by
  have unheld : ∀ other, holds other ≠ some token := by
    intro other held
    rw [balanced.known other token held] at new
    cases new
  have now : ∀ other owned, update holds slot (some token) other = some owned →
      other = slot ∧ owned = token ∨ other ≠ slot ∧ holds other = some owned := by
    intro other owned held
    by_cases same : other = slot
    · subst same
      rw [update_self] at held
      exact .inl ⟨rfl, (Option.some.inj held).symm⟩
    · rw [update_of_ne same] at held
      exact .inr ⟨same, held⟩
  refine ⟨?_, ?_, ?_, ?_, ?_⟩
  · intro first second owned one two
    rcases now first owned one with ⟨rfl, rfl⟩ | ⟨_, before⟩
    · rcases now second owned two with ⟨rfl, _⟩ | ⟨_, also⟩
      · rfl
      · exact absurd also (unheld second)
    · rcases now second owned two with ⟨rfl, rfl⟩ | ⟨_, also⟩
      · exact absurd before (unheld first)
      · exact balanced.unique first second owned before also
  · intro other owned held
    rcases now other owned held with ⟨_, rfl⟩ | ⟨_, before⟩
    · rw [update_self]
    · have given := balanced.known other owned before
      by_cases same : owned = token
      · rw [same, update_self]
      · rw [update_of_ne same]
        exact given
  · intro other owned held
    rcases now other owned held with ⟨_, rfl⟩ | ⟨_, before⟩
    · exact balanced.fresh owned new
    · exact balanced.intact other owned before
  · intro other notGiven
    by_cases same : other = token
    · rw [same, update_self] at notGiven
      cases notGiven
    · rw [update_of_ne same] at notGiven
      exact balanced.fresh other notGiven
  · intro other given nobody
    have differs : other ≠ token := by
      intro same
      exact nobody slot (by rw [update_self, same])
    rw [update_of_ne differs] at given
    refine balanced.spent other given fun place held => ?_
    by_cases same : place = slot
    · rw [same, empty] at held
      cases held
    · exact nobody place (by rw [update_of_ne same]; exact held)

theorem Balanced.release (balanced : Balanced parts holds handed freed)
    (held : holds slot = some token) (whole : ∀ part, part < parts token → amounts part = 1) :
    Balanced parts (update holds slot none) handed
      (update freed token amounts) := by
  have before : ∀ other owned, update holds slot none other = some owned →
      other ≠ slot ∧ holds other = some owned := by
    intro other owned after
    by_cases same : other = slot
    · rw [same, update_self] at after
      cases after
    · rw [update_of_ne same] at after
      exact ⟨same, after⟩
  have differs : ∀ other owned, update holds slot none other = some owned →
      owned ≠ token := by
    rintro other owned after rfl
    obtain ⟨different, also⟩ := before other owned after
    exact different (balanced.unique other slot owned also held)
  refine ⟨?_, ?_, ?_, ?_, ?_⟩
  · intro first second owned one two
    exact balanced.unique first second owned (before first owned one).2 (before second owned two).2
  · intro other owned after
    exact balanced.known other owned (before other owned after).2
  · intro other owned after
    rw [update_of_ne (differs other owned after)]
    exact balanced.intact other owned (before other owned after).2
  · intro other notGiven
    have different : other ≠ token := by
      rintro rfl
      rw [balanced.known slot other held] at notGiven
      cases notGiven
    rw [update_of_ne different]
    exact balanced.fresh other notGiven
  · intro other given nobody
    by_cases same : other = token
    · subst same
      rw [update_self]
      exact whole
    · rw [update_of_ne same]
      refine balanced.spent other given fun place owns => ?_
      by_cases here : place = slot
      · rw [here, held] at owns
        exact same (Option.some.inj owns).symm
      · exact nobody place (by rw [update_of_ne here]; exact owns)

end Ledger
