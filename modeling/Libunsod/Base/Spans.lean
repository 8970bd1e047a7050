import Mathlib.Data.List.TakeWhile
import Mathlib.Tactic.Common

/-!
A buffer that puts the pieces of a stream back in order. Pieces that came early
wait in an ordered list of disjoint spans. A span that arrives is trimmed by the
one before it and trims or replaces the ones behind it; the first span leaves
the list for the output, with a hole in front of it when positions are missing.
-/

namespace Spans

variable {Byte : Type}

variable {holes : Bool}

variable {stream : Nat → Byte}

structure Span (Byte : Type) where
  start : Nat
  data : List Byte

variable {spans before accepted rest : List (Span Byte)} {span new : Span Byte}

namespace Span

def stop (span : Span Byte) : Nat :=
  span.start + span.data.length

def dropFront (span : Span Byte) (count : Nat) : Span Byte :=
  ⟨span.start + count, span.data.drop count⟩

def Has (span : Span Byte) (position : Nat) : Prop :=
  span.start ≤ position ∧ position < span.stop

def Reads (stream : Nat → Byte) (span : Span Byte) : Prop :=
  ∀ index byte, span.data[index]? = some byte → byte = stream (span.start + index)

theorem start_le_stop (span : Span Byte) : span.start ≤ span.stop :=
  Nat.le_add_right _ _

theorem dropFront_stop (span : Span Byte) (count : Nat) (few : span.start + count ≤ span.stop) :
    (span.dropFront count).stop = span.stop := by
  simp only [dropFront, stop, List.length_drop] at few ⊢
  omega

theorem dropFront_reads (span : Span Byte) (count : Nat) (reads : span.Reads stream) :
    (span.dropFront count).Reads stream := by
  intro index byte found
  simp only [dropFront, List.getElem?_drop] at found
  rw [reads (count + index) byte found]
  simp only [dropFront, Nat.add_assoc]

end Span

def Covers (spans : List (Span Byte)) (position : Nat) : Prop :=
  ∃ span ∈ spans, span.Has position

def Ordered (spans : List (Span Byte)) : Prop :=
  spans.Pairwise fun left right => left.stop ≤ right.start

@[simp] theorem not_covers_nil (position : Nat) : ¬Covers ([] : List (Span Byte)) position := by
  simp [Covers]

@[simp] theorem covers_cons (span : Span Byte) (spans : List (Span Byte)) (position : Nat) :
    Covers (span :: spans) position ↔ span.Has position ∨ Covers spans position := by
  simp [Covers]

@[simp] theorem covers_append (before after : List (Span Byte)) (position : Nat) :
    Covers (before ++ after) position ↔ Covers before position ∨ Covers after position := by
  simp only [Covers, List.mem_append, or_and_right, exists_or]

def trim (previous : Option (Span Byte)) (new : Span Byte) : Option (Span Byte) :=
  match previous with
  | none => some new
  | some previous =>
      if new.start < previous.stop then
        if new.stop ≤ previous.stop then none
        else some (new.dropFront (previous.stop - new.start))
      else some new

def cut (stop : Nat) : List (Span Byte) → List (Span Byte)
  | [] => []
  | span :: rest =>
      if stop ≤ span.start then span :: rest
      else if stop < span.stop then span.dropFront (stop - span.start) :: rest
      else cut stop rest

def startsBy (new span : Span Byte) : Bool :=
  span.start ≤ new.start

def insert (spans : List (Span Byte)) (new : Span Byte) : List (Span Byte) :=
  let before := spans.takeWhile (startsBy new)
  match trim before.getLast? new with
  | none => spans
  | some trimmed => before ++ trimmed :: cut trimmed.stop (spans.dropWhile (startsBy new))

theorem cut_cases {stop : Nat} (member : span ∈ cut stop spans) :
    span ∈ spans ∨ ∃ origin ∈ spans, origin.start < stop ∧ stop < origin.stop ∧
      span = origin.dropFront (stop - origin.start) := by
  induction spans with
  | nil => simp [cut] at member
  | cons first rest ih =>
    rw [cut] at member
    split at member
    · exact .inl member
    · split at member
      · rcases List.mem_cons.mp member with rfl | later
        · exact .inr ⟨first, List.mem_cons_self, by omega, by assumption, rfl⟩
        · exact .inl (List.mem_cons_of_mem first later)
      · rcases ih member with found | ⟨origin, found, facts⟩
        · exact .inl (List.mem_cons_of_mem first found)
        · exact .inr ⟨origin, List.mem_cons_of_mem first found, facts⟩

theorem ordered_cons (first : Span Byte) (rest : List (Span Byte)) :
    Ordered (first :: rest) ↔ (∀ span ∈ rest, first.stop ≤ span.start) ∧ Ordered rest :=
  List.pairwise_cons

theorem cut_ordered (stop : Nat) (ordered : Ordered spans) :
    Ordered (cut stop spans) ∧ ∀ span ∈ cut stop spans, stop ≤ span.start := by
  induction spans with
  | nil => exact ⟨List.Pairwise.nil, by simp [cut]⟩
  | cons first rest ih =>
    obtain ⟨behind, sorted⟩ := (ordered_cons first rest).mp ordered
    rw [cut]
    split
    · refine ⟨ordered, ?_⟩
      intro span member
      rcases List.mem_cons.mp member with rfl | later
      · assumption
      · have gap := behind span later
        have size := first.start_le_stop
        omega
    · split
      · have kept : (first.dropFront (stop - first.start)).stop = first.stop :=
          first.dropFront_stop _ (by omega)
        constructor
        · rw [ordered_cons, kept]
          exact ⟨behind, sorted⟩
        · intro span member
          rcases List.mem_cons.mp member with rfl | later
          · simp only [Span.dropFront]
            omega
          · have gap := behind span later
            omega
      · exact ih sorted

theorem cut_covers (stop : Nat) (ordered : Ordered spans) (position : Nat) :
    Covers (cut stop spans) position ↔ Covers spans position ∧ stop ≤ position := by
  induction spans with
  | nil => simp [cut]
  | cons first rest ih =>
    obtain ⟨behind, sorted⟩ := (ordered_cons first rest).mp ordered
    have far : Covers rest position → first.stop ≤ position := by
      rintro ⟨span, member, inside⟩
      exact Nat.le_trans (behind span member) inside.1
    rw [cut]
    split
    · constructor
      · intro covered
        refine ⟨covered, ?_⟩
        have size := first.start_le_stop
        rcases (covers_cons first rest position).mp covered with inside | later
        · exact Nat.le_trans (by assumption) inside.1
        · have gap := far later
          omega
      · exact fun both => both.1
    · split
      · have kept : (first.dropFront (stop - first.start)).stop = first.stop :=
          first.dropFront_stop _ (by omega)
        have begins : (first.dropFront (stop - first.start)).start = stop := by
          simp only [Span.dropFront]
          omega
        simp only [covers_cons, Span.Has, kept, begins]
        constructor
        · rintro (inside | later)
          · exact ⟨.inl ⟨by omega, inside.2⟩, inside.1⟩
          · have gap := far later
            exact ⟨.inr later, by omega⟩
        · rintro ⟨inside | later, reached⟩
          · exact .inl ⟨reached, inside.2⟩
          · exact .inr later
      · rw [ih sorted, covers_cons]
        constructor
        · rintro ⟨later, reached⟩
          exact ⟨.inr later, reached⟩
        · rintro ⟨inside | later, reached⟩
          · have bound := inside.2
            omega
          · exact ⟨later, reached⟩

structure Around (spans : List (Span Byte)) (new : Span Byte) (before after : List (Span Byte)) :
    Prop where
  whole : spans = before ++ after
  early : ∀ span ∈ before, span.start ≤ new.start
  late : ∀ span ∈ after, new.start < span.start
  orderedBefore : Ordered before
  orderedAfter : Ordered after

theorem around_split (new : Span Byte) (ordered : Ordered spans) :
    Around spans new (spans.takeWhile (startsBy new)) (spans.dropWhile (startsBy new)) := by
  have whole : spans = spans.takeWhile (startsBy new) ++ spans.dropWhile (startsBy new) :=
    List.takeWhile_append_dropWhile.symm
  have parts := ordered
  rw [whole, Ordered, List.pairwise_append] at parts
  obtain ⟨front, back, _⟩ := parts
  refine ⟨whole, ?_, ?_, front, back⟩
  · intro span member
    have passed := List.mem_takeWhile_imp member
    simpa [startsBy] using passed
  · intro span member
    cases rest : spans.dropWhile (startsBy new) with
    | nil => simp [rest] at member
    | cons first others =>
      have stopped : startsBy new first = false := by
        have failed := List.head?_dropWhile_not (startsBy new) spans
        simpa [rest] using failed
      have beyond : new.start < first.start := by simpa [startsBy] using stopped
      rw [rest] at member back
      rcases List.mem_cons.mp member with rfl | later
      · exact beyond
      · have gap := ((ordered_cons first others).mp back).1 span later
        have size := first.start_le_stop
        omega

theorem last_reaches (spans : List (Span Byte)) (last : Span Byte) (ordered : Ordered spans)
    (final : spans.getLast? = some last) (span : Span Byte) (member : span ∈ spans) :
    span = last ∨ span.stop ≤ last.start := by
  obtain ⟨front, split⟩ := List.getLast?_eq_some_iff.mp final
  rw [split] at member ordered
  rw [Ordered, List.pairwise_append] at ordered
  rcases List.mem_append.mp member with inside | single
  · exact .inr (ordered.2.2 span inside last (List.mem_singleton_self last))
  · exact .inl (List.mem_singleton.mp single)

theorem trim_some {trimmed : Span Byte} (ordered : Ordered before)
    (early : ∀ span ∈ before, span.start ≤ new.start)
    (left : trim before.getLast? new = some trimmed) :
    (∀ span ∈ before, span.stop ≤ trimmed.start) ∧ trimmed.stop = new.stop ∧
      new.start ≤ trimmed.start ∧
      (∀ position, new.start ≤ position → position < trimmed.start → Covers before position) ∧
      ∃ count, trimmed = new.dropFront count := by
  cases final : before.getLast? with
  | none =>
    rw [List.getLast?_eq_none_iff] at final
    rw [final] at left
    simp only [trim, List.getLast?_nil, Option.some.injEq] at left
    subst left
    refine ⟨by simp [final], rfl, Nat.le_refl _, by omega, 0, ?_⟩
    simp [Span.dropFront]
  | some last =>
    have reaches := last_reaches before last ordered final
    have member : last ∈ before := List.mem_of_getLast? final
    have starts := early last member
    have size := last.start_le_stop
    rw [final] at left
    simp only [trim] at left
    split at left
    · split at left
      · simp at left
      · cases left
        have begins : (new.dropFront (last.stop - new.start)).start = last.stop := by
          simp only [Span.dropFront]
          omega
        refine ⟨?_, new.dropFront_stop _ (by omega), by omega, ?_, _, rfl⟩
        · intro span inside
          rcases reaches span inside with rfl | ends <;> omega
        · intro position first second
          exact ⟨last, member, by omega, by omega⟩
    · cases left
      refine ⟨?_, rfl, Nat.le_refl _, by omega, 0, by simp [Span.dropFront]⟩
      intro span inside
      rcases reaches span inside with rfl | ends <;> omega

theorem trim_none (early : ∀ span ∈ before, span.start ≤ new.start)
    (nothing : trim before.getLast? new = none) :
    ∃ last ∈ before, last.start ≤ new.start ∧ new.start < last.stop ∧ new.stop ≤ last.stop := by
  cases final : before.getLast? with
  | none => simp [final, trim] at nothing
  | some last =>
    have member : last ∈ before := List.mem_of_getLast? final
    rw [final] at nothing
    simp only [trim] at nothing
    split at nothing
    · split at nothing
      · exact ⟨last, member, early last member, by assumption, by assumption⟩
      · simp at nothing
    · simp at nothing

theorem insert_ordered (new : Span Byte) (ordered : Ordered spans) :
    Ordered (insert spans new) := by
  have around := around_split new ordered
  rw [insert]
  cases left : trim (spans.takeWhile (startsBy new)).getLast? new with
  | none => exact ordered
  | some trimmed =>
    obtain ⟨reach, _, _, _, _⟩ := trim_some around.orderedBefore around.early left
    obtain ⟨sorted, behind⟩ := cut_ordered trimmed.stop around.orderedAfter
    simp only [Ordered, List.pairwise_append, List.pairwise_cons]
    refine ⟨around.orderedBefore, ⟨behind, sorted⟩, ?_⟩
    intro span member other inside
    have first := reach span member
    rcases List.mem_cons.mp inside with rfl | later
    · exact first
    · have second := behind other later
      have size := trimmed.start_le_stop
      omega

theorem insert_covers (new : Span Byte) (ordered : Ordered spans) (position : Nat) :
    Covers (insert spans new) position ↔ new.Has position ∨ Covers spans position := by
  have around := around_split new ordered
  rw [insert]
  cases left : trim (spans.takeWhile (startsBy new)).getLast? new with
  | none =>
    obtain ⟨last, member, starts, _, ends⟩ := trim_none around.early left
    constructor
    · exact .inr
    · rintro (⟨first, second⟩ | covered)
      · refine ⟨last, ?_, by omega, by omega⟩
        rw [around.whole]
        exact List.mem_append_left _ member
      · exact covered
  | some trimmed =>
    obtain ⟨_, ends, starts, front, _⟩ :=
      trim_some around.orderedBefore around.early left
    have whole : Covers spans position ↔
        Covers (spans.takeWhile (startsBy new)) position ∨
          Covers (spans.dropWhile (startsBy new)) position := by
      rw [← covers_append, ← around.whole]
    simp only [covers_append, covers_cons, cut_covers _ around.orderedAfter, whole]
    have later : Covers (spans.dropWhile (startsBy new)) position → new.start < position := by
      rintro ⟨span, member, inside⟩
      exact Nat.lt_of_lt_of_le (around.late span member) inside.1
    constructor
    · rintro (covered | ⟨first, second⟩ | ⟨covered, _⟩)
      · exact .inr (.inl covered)
      · exact .inl ⟨by omega, by omega⟩
      · exact .inr (.inr covered)
    · rintro (⟨first, second⟩ | covered | covered)
      · by_cases reached : position < trimmed.start
        · exact .inl (front position first reached)
        · exact .inr (.inl ⟨by omega, by omega⟩)
      · exact .inl covered
      · have beyond := later covered
        by_cases reached : trimmed.stop ≤ position
        · exact .inr (.inr ⟨covered, reached⟩)
        · by_cases fresh : position < trimmed.start
          · exact .inl (front position (by omega) fresh)
          · exact .inr (.inl ⟨by omega, by omega⟩)

def Span.Reaches (span other : Span Byte) : Prop :=
  other.stop ≤ span.stop ∧ (other.start < span.stop ∨ span.start = span.stop)

theorem Span.reaches_self (span : Span Byte) : span.Reaches span := by
  have size := span.start_le_stop
  refine ⟨Nat.le_refl _, ?_⟩
  omega

theorem cut_reaches (stop : Nat) (member : span ∈ spans) :
    (∃ other ∈ cut stop spans, other.Reaches span) ∨ (span.start < stop ∧ span.stop ≤ stop) := by
  induction spans with
  | nil => cases member
  | cons first rest ih =>
    simp only [cut]
    split
    · exact .inl ⟨span, member, span.reaches_self⟩
    · rcases List.mem_cons.mp member with rfl | later
      · split
        · have kept := span.dropFront_stop (stop - span.start) (by omega)
          exact .inl ⟨_, List.mem_cons_self, by omega, .inl (by omega)⟩
        · exact .inr ⟨by omega, by omega⟩
      · split
        · exact .inl ⟨span, List.mem_cons_of_mem _ later, span.reaches_self⟩
        · exact ih later

theorem insert_reaches (ordered : Ordered spans) (member : span ∈ spans ∨ span = new) :
    ∃ other ∈ insert spans new, other.Reaches span := by
  have around := around_split new ordered
  simp only [insert]
  cases left : trim (spans.takeWhile (startsBy new)).getLast? new with
  | none =>
    rcases member with old | rfl
    · exact ⟨span, old, span.reaches_self⟩
    · obtain ⟨last, inside, _, overlaps, covered⟩ := trim_none around.early left
      refine ⟨last, ?_, covered, .inl overlaps⟩
      rw [around.whole]
      exact List.mem_append_left _ inside
  | some trimmed =>
    obtain ⟨_, stop, behind, _, _⟩ := trim_some around.orderedBefore around.early left
    have size := trimmed.start_le_stop
    rcases member with old | rfl
    · rw [around.whole, List.mem_append] at old
      rcases old with early | late
      · exact ⟨span, List.mem_append_left _ early, span.reaches_self⟩
      · rcases cut_reaches trimmed.stop late with ⟨other, kept, reaches⟩ | ⟨starts, covered⟩
        · exact ⟨other, List.mem_append_right _ (List.mem_cons_of_mem _ kept), reaches⟩
        · exact ⟨trimmed, List.mem_append_right _ List.mem_cons_self, covered, .inl starts⟩
    · refine ⟨trimmed, List.mem_append_right _ List.mem_cons_self, Nat.le_of_eq stop.symm, ?_⟩
      omega

theorem insert_origin (spans : List (Span Byte)) (new : Span Byte) (ordered : Ordered spans)
    (span : Span Byte) (member : span ∈ insert spans new) :
    ∃ origin, (origin = new ∨ origin ∈ spans) ∧ origin.start ≤ span.start ∧
      span.stop = origin.stop ∧ ∃ count, span = origin.dropFront count := by
  have around := around_split new ordered
  have plain (kept : Span Byte) : kept = kept.dropFront 0 := by simp [Span.dropFront]
  rw [insert] at member
  cases left : trim (spans.takeWhile (startsBy new)).getLast? new with
  | none =>
    rw [left] at member
    exact ⟨span, .inr member, Nat.le_refl _, rfl, 0, plain span⟩
  | some trimmed =>
    obtain ⟨_, ends, starts, _, count, dropped⟩ :=
      trim_some around.orderedBefore around.early left
    rw [left] at member
    rcases List.mem_append.mp member with early | rest
    · refine ⟨span, .inr ?_, Nat.le_refl _, rfl, 0, plain span⟩
      exact List.takeWhile_subset _ early
    · rcases List.mem_cons.mp rest with rfl | late
      · exact ⟨new, .inl rfl, starts, ends, count, dropped⟩
      · rcases cut_cases late with found | ⟨origin, found, early, late, rfl⟩
        · refine ⟨span, .inr ?_, Nat.le_refl _, rfl, 0, plain span⟩
          exact (List.dropWhile_sublist _).subset found
        · refine ⟨origin, .inr ?_, ?_, origin.dropFront_stop _ (by omega), _, rfl⟩
          · exact (List.dropWhile_sublist _).subset found
          · simp only [Span.dropFront]
            omega

structure Buffer (Byte : Type) where
  next : Nat
  spans : List (Span Byte)
  cells : List (Option Byte)

variable {buffer origin : Buffer Byte}

namespace Buffer

def empty : Buffer Byte :=
  ⟨0, [], []⟩

def insert (buffer : Buffer Byte) (new : Span Byte) : Buffer Byte :=
  { buffer with spans := Spans.insert buffer.spans new }

def skip (buffer : Buffer Byte) (start : Nat) : Buffer Byte where
  next := start
  spans := buffer.spans
  cells := buffer.cells ++ List.replicate (start - buffer.next) none

def take (buffer : Buffer Byte) (first : Span Byte) (rest : List (Span Byte)) : Buffer Byte where
  next := first.stop
  spans := rest
  cells := buffer.cells ++ first.data.map some

structure Consistent (stream : Nat → Byte) (accepted : List (Span Byte)) (buffer : Buffer Byte) :
    Prop where
  ordered : Ordered buffer.spans
  ahead : ∀ span ∈ buffer.spans, buffer.next ≤ span.start
  reads : ∀ span ∈ buffer.spans, span.Reads stream
  covered : ∀ position, buffer.next ≤ position →
    (Covers buffer.spans position ↔ Covers accepted position)
  length : buffer.cells.length = buffer.next
  filled : ∀ position, position < buffer.next → Covers accepted position →
    buffer.cells[position]? = some (some (stream position))
  missing : ∀ position, position < buffer.next → ¬Covers accepted position →
    buffer.cells[position]? = some none

theorem empty_consistent (stream : Nat → Byte) : (empty : Buffer Byte).Consistent stream [] where
  ordered := List.Pairwise.nil
  ahead := by simp [empty]
  reads := by simp [empty]
  covered := by simp [empty]
  length := rfl
  filled := by simp [empty]
  missing := by simp [empty]

theorem insert_consistent (buffer : Buffer Byte) (consistent : buffer.Consistent stream accepted)
    (ahead : buffer.next ≤ new.start) (reads : new.Reads stream) :
    (buffer.insert new).Consistent stream (new :: accepted) := by
  have origin := insert_origin buffer.spans new consistent.ordered
  have outside (position : Nat) (early : position < buffer.next) : ¬new.Has position := by
    rintro ⟨starts, _⟩
    omega
  refine ⟨insert_ordered new consistent.ordered, ?_, ?_, ?_, consistent.length, ?_, ?_⟩
  · intro span member
    obtain ⟨source, rfl | found, starts, _⟩ := origin span member
    · exact Nat.le_trans ahead starts
    · exact Nat.le_trans (consistent.ahead source found) starts
  · intro span member
    obtain ⟨source, from_, _, _, count, rfl⟩ := origin span member
    rcases from_ with rfl | found
    · exact source.dropFront_reads count reads
    · exact source.dropFront_reads count (consistent.reads source found)
  · intro position reached
    simp only [insert] at reached ⊢
    rw [insert_covers new consistent.ordered, covers_cons,
      consistent.covered position reached]
  · intro position early covered
    refine consistent.filled position early ?_
    exact ((covers_cons new accepted position).mp covered).resolve_left (outside position early)
  · intro position early uncovered
    refine consistent.missing position early ?_
    exact fun covered => uncovered ((covers_cons new accepted position).mpr (.inr covered))

theorem Consistent.first {first : Span Byte} (consistent : buffer.Consistent stream accepted)
    (spans : buffer.spans = first :: rest) :
    buffer.next ≤ first.start ∧ (∀ span ∈ rest, first.stop ≤ span.start) ∧ Ordered rest ∧
      first.Reads stream := by
  have ordered := consistent.ordered
  have ahead := consistent.ahead
  have reads := consistent.reads
  rw [spans] at ordered ahead reads
  obtain ⟨behind, sorted⟩ := (ordered_cons first rest).mp ordered
  exact ⟨ahead first List.mem_cons_self, behind, sorted, reads first List.mem_cons_self⟩

theorem skip_consistent {first : Span Byte} (consistent : buffer.Consistent stream accepted)
    (spans : buffer.spans = first :: rest) :
    (buffer.skip first.start).Consistent stream accepted := by
  obtain ⟨starts, behind, _, _⟩ := consistent.first spans
  have size := first.start_le_stop
  have length := consistent.length
  have hole (position : Nat) (reached : buffer.next ≤ position) (early : position < first.start) :
      ¬Covers accepted position := by
    rw [← consistent.covered position reached, spans, covers_cons]
    rintro (inside | ⟨span, member, inside⟩)
    · have begun := inside.1
      omega
    · have begun := inside.1
      have gap := behind span member
      omega
  refine ⟨consistent.ordered, ?_, consistent.reads, ?_, ?_, ?_, ?_⟩
  · intro span member
    simp only [skip, spans] at member ⊢
    rcases List.mem_cons.mp member with rfl | later
    · exact Nat.le_refl _
    · exact Nat.le_trans size (behind span later)
  · intro position reached
    exact consistent.covered position (Nat.le_trans starts reached)
  · simp only [skip, List.length_append, List.length_replicate, length]
    omega
  · intro position early inside
    by_cases old : position < buffer.next
    · simp only [skip]
      rw [List.getElem?_append_left (by omega)]
      exact consistent.filled position old inside
    · exact absurd inside (hole position (by omega) early)
  · intro position early outside
    simp only [skip] at early ⊢
    by_cases old : position < buffer.next
    · rw [List.getElem?_append_left (by omega)]
      exact consistent.missing position old outside
    · rw [List.getElem?_append_right (by omega), List.getElem?_replicate_of_lt (by omega)]

theorem take_consistent {first : Span Byte} (consistent : buffer.Consistent stream accepted)
    (spans : buffer.spans = first :: rest) (starts : first.start = buffer.next) :
    (buffer.take first rest).Consistent stream accepted := by
  obtain ⟨_, behind, sorted, reads⟩ := consistent.first spans
  have size := first.start_le_stop
  have length := consistent.length
  have covered (position : Nat) (reached : buffer.next ≤ position) :
      (first.Has position ∨ Covers rest position) ↔ Covers accepted position := by
    rw [← covers_cons, ← spans]
    exact consistent.covered position reached
  refine ⟨sorted, behind, ?_, ?_, ?_, ?_, ?_⟩
  · intro span member
    exact consistent.reads span (by rw [spans]; exact List.mem_cons_of_mem first member)
  · intro position reached
    simp only [take] at reached ⊢
    rw [← covered position (by omega)]
    constructor
    · exact .inr
    · rintro (⟨_, inside⟩ | later)
      · omega
      · exact later
  · simp only [take, List.length_append, List.length_map, Span.stop, length]
    omega
  · intro position early inside
    simp only [take, Span.stop] at early ⊢
    by_cases old : position < buffer.next
    · rw [List.getElem?_append_left (by omega)]
      exact consistent.filled position old inside
    · have bound : position - buffer.cells.length < first.data.length := by omega
      have found := reads (position - buffer.cells.length) _ (List.getElem?_eq_getElem bound)
      rw [List.getElem?_append_right (by omega), List.getElem?_map,
        List.getElem?_eq_getElem bound, Option.map_some, found]
      congr 3
      omega
  · intro position early outside
    simp only [take, Span.stop] at early ⊢
    by_cases old : position < buffer.next
    · rw [List.getElem?_append_left (by omega)]
      exact consistent.missing position old outside
    · exact absurd ((covered position (by omega)).mp
        (.inl ⟨by omega, by simp only [Span.stop]; omega⟩)) outside

def Full (accepted : List (Span Byte)) (buffer : Buffer Byte) : Prop :=
  ∀ position, position < buffer.next → Covers accepted position

theorem take_full {first : Span Byte} (consistent : buffer.Consistent stream accepted)
    (spans : buffer.spans = first :: rest) (starts : first.start = buffer.next)
    (full : buffer.Full accepted) : (buffer.take first rest).Full accepted := by
  intro position early
  by_cases old : position < buffer.next
  · exact full position old
  · rw [← consistent.covered position (by omega), spans, covers_cons]
    exact .inl ⟨by omega, early⟩

inductive Delivers (holes : Bool) (origin : Buffer Byte) : Buffer Byte → Prop
  | refl : Delivers holes origin origin
  | take {buffer first rest} : Delivers holes origin buffer → buffer.spans = first :: rest →
      first.start = buffer.next → Delivers holes origin (buffer.take first rest)
  | skip {buffer first rest} : Delivers holes origin buffer → buffer.spans = first :: rest →
      buffer.next ≤ first.start → holes = true → Delivers holes origin (buffer.skip first.start)

theorem Delivers.consistent (delivers : Delivers holes origin buffer)
    (consistent : origin.Consistent stream accepted) : buffer.Consistent stream accepted := by
  induction delivers with
  | refl => exact consistent
  | take _ spans starts ih => exact take_consistent ih spans starts
  | skip _ spans _ _ ih => exact skip_consistent ih spans

theorem Delivers.full (delivers : Delivers false origin buffer)
    (consistent : origin.Consistent stream accepted) (full : origin.Full accepted) :
    buffer.Full accepted := by
  induction delivers with
  | refl => exact full
  | take before spans starts ih =>
    exact take_full (before.consistent consistent) spans starts ih
  | skip _ _ _ holes => cases holes

theorem Delivers.length (delivers : Delivers holes origin buffer)
    (length : origin.cells.length = origin.next) : buffer.cells.length = buffer.next := by
  induction delivers with
  | refl => exact length
  | take _ _ starts ih =>
    simp only [Buffer.take, List.length_append, List.length_map, Span.stop, ih, starts]
  | skip _ _ forward _ ih =>
    simp only [Buffer.skip, List.length_append, List.length_replicate, ih]
    omega

theorem Consistent.waits (consistent : buffer.Consistent stream accepted)
    (gap : ∀ span ∈ buffer.spans, buffer.next < span.start) : ¬Covers accepted buffer.next := by
  rw [← consistent.covered buffer.next (Nat.le_refl _)]
  rintro ⟨span, member, inside⟩
  have later := gap span member
  have reached := inside.1
  omega

end Buffer

end Spans
