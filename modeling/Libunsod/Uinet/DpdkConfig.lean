import Libunsod.Uinet.IfNames
import Mathlib.Data.List.TakeWhile

/-!
The configuration string of a DPDK interface and what `if_dpdk_attach` allocates and frees. A name
of zero length behind `file://`, a lone comma and commas in the transmit name are taken; when one
file serves both directions, the names are freed by the parser and once more by the caller.
-/

namespace Libunsod.Uinet

open Udsock (ErrName)

def comma : UInt8 := 44

def filePrefix : List UInt8 := [102, 105, 108, 101, 58, 47, 47]

structure DpdkNames where
  rxIfname : Option (List UInt8)
  txIfname : Option (List UInt8)
  rxIsfile : Bool
  txIsfile : Bool
  rxDisabled : Bool
  txDisabled : Bool
  txisrx : Bool
  deriving DecidableEq

def ifDpdkExtractIfname (start : List UInt8) (length : Nat) : Bool × Option (List UInt8) :=
  let isfile := filePrefix.isPrefixOf start
  let offset := if isfile then filePrefix.length else 0
  (isfile, if length = 0 then none else some ((start.drop offset).take (length - offset)))

def compareNames (names : DpdkNames) : Int × DpdkNames :=
  if !names.rxDisabled && !names.txDisabled && names.rxIfname = names.txIfname then
    (if names.rxIsfile && names.txIsfile then ErrName.einval.uinet else 0,
      { names with txisrx := true })
  else (0, names)

def ifDpdkProcessConfigstr (configstr : List UInt8) : Int × DpdkNames :=
  let (isfile, name) := ifDpdkExtractIfname configstr (configstr.takeWhile (· ≠ comma)).length
  match configstr.dropWhile (· ≠ comma) with
  | [] =>
      if name = none then
        (ErrName.einval.uinet, ⟨none, none, isfile, false, false, false, false⟩)
      else compareNames ⟨name, name, isfile, isfile, false, false, false⟩
  | _ :: start =>
      let (txIsfile, txName) := ifDpdkExtractIfname start start.length
      compareNames ⟨name, txName, isfile, txIsfile, name = none, txName = none, false⟩

def DpdkNames.oneFile (names : DpdkNames) : Bool :=
  names.txisrx && names.rxIsfile && names.txIsfile

def parsedConfigstr (configstr : List UInt8) : Option DpdkNames :=
  if (ifDpdkProcessConfigstr configstr).1 = 0 then some (ifDpdkProcessConfigstr configstr).2
  else none

def namedPart (text : List UInt8) : Option (Bool × List UInt8) :=
  if filePrefix.isPrefixOf text then
    if text.drop filePrefix.length = [] then none else some (true, text.drop filePrefix.length)
  else if text = [] then none else some (false, text)

def documentedConfigstr (configstr : List UInt8) : Option DpdkNames :=
  match configstr.splitOn comma with
  | [text] =>
      (namedPart text).bind fun one =>
        if one.1 then none else some ⟨one.2, one.2, false, false, false, false, true⟩
  | [rx, tx] =>
      if tx = [] then
        (namedPart rx).map fun one => ⟨one.2, none, one.1, false, false, true, false⟩
      else if rx = [] then
        (namedPart tx).map fun one => ⟨none, one.2, false, one.1, true, false, false⟩
      else
        (namedPart rx).bind fun one => (namedPart tx).bind fun other =>
          if one = other ∧ one.1 then none
          else some ⟨one.2, other.2, one.1, other.1, false, false, one = other⟩
  | _ => none

inductive IfResource where
  | uif | configstr | evifctx | softc | rxIfname | txIfname | rxPds | txPds | hostCtx
  | injectRing | pdctxToFree | ifnet | etherIf | txLock | txThread | rxLock | rxThread
  deriving DecidableEq

structure IfTrace where
  made : List IfResource
  undone : List IfResource

structure AttachWorld where
  softc : Bool
  rxPds : Bool
  txPds : Bool
  hostCtx : Bool
  injectRing : Bool
  pdctxToFree : Bool

def acquire : List (IfResource × Bool × ErrName) → Int × List IfResource
  | [] => (0, [])
  | (resource, succeeds, error) :: rest =>
      if succeeds then ((acquire rest).1, resource :: (acquire rest).2) else (error.uinet, [])

def AttachWorld.steps (world : AttachWorld) : List (IfResource × Bool × ErrName) :=
  [(.rxPds, world.rxPds, .enomem), (.txPds, world.txPds, .enomem),
    (.hostCtx, world.hostCtx, .enxio), (.injectRing, world.injectRing, .enomem),
    (.pdctxToFree, world.pdctxToFree, .enomem)]

/-- `kthread_add` never returns an error: it allocates with `M_WAITOK` and waits for the thread
to have started, so the tests of its result find zero. -/
def ifDpdkSetupInterface (sts txUseThread : Bool) : List IfResource :=
  .ifnet :: .etherIf :: (if txUseThread then [.txLock, .txThread] else []) ++
    if sts then [] else [.rxLock, .rxThread]

def DpdkNames.resources (names : DpdkNames) : List IfResource :=
  (if names.rxIfname = none then [] else [.rxIfname]) ++
    if names.txIfname = none then [] else [.txIfname]

def ifDpdkAttach (sts useFileIoThread : Bool) (configstr : Option CString) (world : AttachWorld) :
    Int × IfTrace :=
  match configstr with
  | none => (ErrName.einval.uinet, ⟨[], []⟩)
  | some configstr =>
      if !world.softc then (ErrName.enomem.uinet, ⟨[], []⟩)
      else
        let (error, names) := ifDpdkProcessConfigstr configstr.bytes
        let made := .softc :: names.resources
        if error ≠ 0 then
          let freed := if names.oneFile then names.resources else []
          (error, ⟨made, freed ++ names.resources ++ [.softc]⟩)
        else
          let (error, got) := acquire world.steps
          if error ≠ 0 then (error, ⟨made ++ got, names.resources ++ got ++ [.softc]⟩)
          else (0, ⟨made ++ got ++ ifDpdkSetupInterface sts (!sts || useFileIoThread), []⟩)

variable {text rx tx : List UInt8} {configstr : CString} {names : DpdkNames}

def isFile (text : List UInt8) : Bool := filePrefix.isPrefixOf text

def ifName (text : List UInt8) : List UInt8 :=
  text.drop (if isFile text then filePrefix.length else 0)

theorem isFile_append (text rest : List UInt8) :
    isFile (text ++ comma :: rest) = isFile text := by
  rw [isFile, isFile, Bool.eq_iff_iff, List.isPrefixOf_iff_prefix, List.isPrefixOf_iff_prefix]
  constructor
  · intro starts
    rcases List.prefix_or_prefix_of_prefix starts (List.prefix_append _ _) with
      inside | ⟨tail, whole⟩
    · exact inside
    · cases tail with
      | nil => rw [← whole, List.append_nil]
      | cons byte tail =>
        rw [← whole, List.prefix_append_right_inj, List.cons_prefix_cons] at starts
        have member : comma ∈ filePrefix := by
          rw [← whole, starts.1]
          exact List.mem_append_right _ List.mem_cons_self
        exact absurd member (by decide)
  · exact fun inside => inside.trans (List.prefix_append _ _)

def part (text : List UInt8) : Option (List UInt8) :=
  if text.length = 0 then none else some (ifName text)

theorem extract_whole (text : List UInt8) :
    ifDpdkExtractIfname text text.length = (isFile text, part text) := by
  simp only [ifDpdkExtractIfname, part, ifName, isFile]
  rw [List.take_of_length_le (by rw [List.length_drop])]
  rfl

theorem extract_front (text rest : List UInt8) :
    ifDpdkExtractIfname (text ++ comma :: rest) text.length = (isFile text, part text) := by
  have kind := isFile_append text rest
  rw [isFile] at kind
  simp only [ifDpdkExtractIfname, kind, part, ifName]
  rw [← List.drop_take, List.take_left]

theorem takeWhile_front (free : comma ∉ rx) :
    (rx ++ comma :: tx).takeWhile (· ≠ comma) = rx ∧
      (rx ++ comma :: tx).dropWhile (· ≠ comma) = comma :: tx := by
  have pass : ∀ byte ∈ rx, decide (byte ≠ comma) = true := fun byte member =>
    decide_eq_true fun same => free (same ▸ member)
  rw [List.takeWhile_append_of_pos pass, List.dropWhile_append_of_pos pass]
  simp

theorem process_single (free : comma ∉ text) : ifDpdkProcessConfigstr text =
    if part text = none then
      (ErrName.einval.uinet, ⟨none, none, isFile text, false, false, false, false⟩)
    else (if isFile text then ErrName.einval.uinet else 0,
      ⟨part text, part text, isFile text, isFile text, false, false, true⟩) := by
  have pass : ∀ byte ∈ text, decide (byte ≠ comma) = true := fun byte member =>
    decide_eq_true fun same => free (same ▸ member)
  have front : text.takeWhile (· ≠ comma) = text :=
    List.takeWhile_eq_self_iff.mpr pass
  rw [ifDpdkProcessConfigstr, front, List.dropWhile_eq_nil_iff.mpr pass, extract_whole]
  simp [compareNames]

def pairNames (rx tx : List UInt8) : DpdkNames :=
  ⟨part rx, part tx, isFile rx, isFile tx, part rx = none, part tx = none, false⟩

theorem process_pair (free : comma ∉ rx) :
    ifDpdkProcessConfigstr (rx ++ comma :: tx) = compareNames (pairNames rx tx) := by
  obtain ⟨front, back⟩ := @takeWhile_front rx tx free
  rw [ifDpdkProcessConfigstr, front, back, extract_front]
  simp only [extract_whole, pairNames]

theorem namedPart_eq (text : List UInt8) : namedPart text =
    if text = filePrefix then none else (part text).map (isFile text, ·) := by
  rw [namedPart, part, ifName]
  cases kind : isFile text with
  | true =>
    rw [isFile] at kind
    obtain ⟨rest, rfl⟩ := List.isPrefixOf_iff_prefix.mp kind
    simp [filePrefix]
  | false =>
    rw [isFile] at kind
    have other : text ≠ filePrefix := by
      rintro rfl
      exact absurd kind (by decide)
    cases text <;> simp_all

theorem documented_single (free : comma ∉ text) :
    documentedConfigstr text = parsedConfigstr text := by
  rw [documentedConfigstr, List.splitOn_eq_singleton free, parsedConfigstr, process_single free]
  dsimp only
  rw [namedPart_eq]
  cases named : part text with
  | none => simp [ErrName.uinet]
  | some name =>
    cases kind : isFile text with
    | true => by_cases bare : text = filePrefix <;> simp [bare, ErrName.uinet]
    | false =>
      have other : text ≠ filePrefix := by
        rintro rfl
        exact absurd kind (by decide)
      simp [other]

theorem namedPart_of_ne (some_ : text ≠ []) : namedPart text =
    if text = filePrefix then none else some (isFile text, ifName text) := by
  rw [namedPart_eq, part, if_neg (mt List.length_eq_zero_iff.mp some_)]
  rfl

theorem part_of_ne (some_ : text ≠ []) : part text = some (ifName text) :=
  if_neg (mt List.length_eq_zero_iff.mp some_)

theorem documented_pair (free : comma ∉ rx) (free' : comma ∉ tx) :
    documentedConfigstr (rx ++ comma :: tx) = some (compareNames (pairNames rx tx)).2 ↔
      ¬((rx = [] ∧ tx = []) ∨ rx = filePrefix ∨ tx = filePrefix ∨
        (rx ≠ [] ∧ tx ≠ [] ∧ ifName rx = ifName tx ∧ (isFile rx ∨ isFile tx))) := by
  have file : [] ≠ filePrefix := by decide
  have kind : isFile [] = false := rfl
  have nothing : part [] = none := rfl
  rw [documentedConfigstr, List.splitOn_append_cons_self_of_not_mem free,
    List.splitOn_eq_singleton free']
  dsimp only
  by_cases noTx : tx = []
  · subst noTx
    by_cases noRx : rx = []
    · subst noRx
      simp [namedPart_eq, nothing]
    · rw [if_pos rfl, namedPart_of_ne noRx]
      by_cases bare : rx = filePrefix
      · simp [bare]
      · simp [bare, file, noRx, pairNames, compareNames, part_of_ne noRx, nothing, kind]
  · rw [if_neg noTx, namedPart_of_ne noTx]
    by_cases noRx : rx = []
    · subst noRx
      by_cases bare : tx = filePrefix
      · simp [bare]
      · simp [bare, file, noTx, pairNames, compareNames, part_of_ne noTx, nothing, kind]
    · rw [if_neg noRx, namedPart_of_ne noRx]
      by_cases bareRx : rx = filePrefix
      · simp [bareRx]
      · by_cases bareTx : tx = filePrefix
        · simp [bareRx, bareTx]
        · simp only [if_neg bareRx, if_neg bareTx, Option.bind_some, pairNames, compareNames,
            part_of_ne noRx, part_of_ne noTx]
          by_cases same : ifName rx = ifName tx
          · cases isFile rx <;> cases isFile tx <;> simp [same, bareRx, bareTx, noRx, noTx]
          · simp [same, bareRx, bareTx, noRx]

theorem compareNames_oneFile (fresh : names.txisrx = false) :
    ((compareNames names).2.oneFile = true ↔ (compareNames names).1 ≠ 0) ∧
      ((compareNames names).2.oneFile = true → names.rxDisabled = false) ∧
      (compareNames names).2.rxIfname = names.rxIfname := by
  have number : ErrName.einval.uinet ≠ 0 := by decide
  rw [compareNames]
  split
  next alike =>
    simp only [Bool.and_eq_true, Bool.not_eq_eq_eq_not, Bool.not_true] at alike
    cases both : names.rxIsfile && names.txIsfile <;>
      simp [DpdkNames.oneFile, both, number, alike.1.1]
  · simp [DpdkNames.oneFile, fresh]

def FreesOnce (configstr : CString) : Prop :=
  ∀ sts useFileIoThread world,
    (ifDpdkAttach sts useFileIoThread (some configstr) world).1 ≠ 0 →
    ∀ name ∈ [IfResource.rxIfname, .txIfname],
      (ifDpdkAttach sts useFileIoThread (some configstr) world).2.undone.count name =
        (ifDpdkAttach sts useFileIoThread (some configstr) world).2.made.count name

variable {sts useFileIoThread : Bool} {world : AttachWorld}

theorem uinet_ne_zero (error : ErrName) : error.uinet ≠ 0 := by
  cases error <;> decide

structure Reaches (configstr : Option CString) (world : AttachWorld) : Prop where
  softc : world.softc = true
  parsed : ∃ text, configstr = some text ∧ (ifDpdkProcessConfigstr text.bytes).1 = 0
  acquired : (acquire world.steps).1 = 0

theorem ifDpdkAttach_early {given : Option CString} (early : ¬Reaches given world) :
    (ifDpdkAttach sts useFileIoThread given world).1 ≠ 0 ∧ ∀ resource,
      (ifDpdkAttach sts useFileIoThread given world).2.made.count resource ≤
        (ifDpdkAttach sts useFileIoThread given world).2.undone.count resource ∧
      ((∀ text, given = some text → (ifDpdkProcessConfigstr text.bytes).2.oneFile = false) →
        (ifDpdkAttach sts useFileIoThread given world).2.undone.count resource =
          (ifDpdkAttach sts useFileIoThread given world).2.made.count resource) := by
  unfold ifDpdkAttach
  split
  · exact ⟨uinet_ne_zero .einval, fun _ => ⟨Nat.le_refl _, fun _ => rfl⟩⟩
  next configstr =>
    split
    · exact ⟨uinet_ne_zero .enomem, fun _ => ⟨Nat.le_refl _, fun _ => rfl⟩⟩
    next softc =>
      dsimp only
      split
      next failed =>
        refine ⟨failed, fun resource => ⟨?_, fun single => ?_⟩⟩
        · simp only [List.count_cons, List.count_append, List.count_nil]
          omega
        · simp only [single configstr rfl, Bool.false_eq_true, ↓reduceIte, List.count_cons,
            List.count_append, List.count_nil]
          omega
      next parsed =>
        have failed : (acquire world.steps).1 ≠ 0 := fun acquired =>
          early ⟨by simpa using softc, ⟨configstr, rfl, not_not.mp parsed⟩, acquired⟩
        rw [if_pos failed]
        refine ⟨failed, fun resource => ?_⟩
        simp only [List.count_cons, List.count_append, List.count_nil]
        omega

theorem ifDpdkAttach_reached {given : Option CString} (reaches : Reaches given world) :
    (ifDpdkAttach sts useFileIoThread given world).1 = 0 := by
  obtain ⟨text, rfl, parsed⟩ := reaches.parsed
  simp only [ifDpdkAttach, reaches.softc, parsed, reaches.acquired, Bool.not_true,
    Bool.false_eq_true, ne_eq, not_true_eq_false, ↓reduceIte]

theorem freesOnce_iff
    (failed : (ifDpdkProcessConfigstr configstr.bytes).2.oneFile = true →
      (ifDpdkProcessConfigstr configstr.bytes).1 ≠ 0 ∧
        (ifDpdkProcessConfigstr configstr.bytes).2.rxIfname ≠ none) :
    FreesOnce configstr ↔ (ifDpdkProcessConfigstr configstr.bytes).2.oneFile = false := by
  constructor
  · intro once
    by_contra twice
    obtain ⟨error, named⟩ := failed (eq_true_of_ne_false twice)
    have counts := once false false ⟨true, true, true, true, true, true⟩
    simp only [ifDpdkAttach, Bool.not_true, Bool.false_eq_true, ↓reduceIte, ne_eq, error,
      not_false_eq_true, eq_true_of_ne_false twice] at counts
    have extra := counts trivial .rxIfname List.mem_cons_self
    simp [DpdkNames.resources, named] at extra
  · intro single sts useFileIoThread world fails name member
    by_cases reaches : Reaches (some configstr) world
    · exact absurd (ifDpdkAttach_reached reaches) fails
    · exact ((ifDpdkAttach_early reaches).2 name).2 fun text same => by
        rw [← Option.some.inj same]
        exact single

def Misread (configstr : List UInt8) : Prop :=
  (comma ∉ configstr ∧ isFile configstr) ∨
    ∃ rx tx, configstr = rx ++ comma :: tx ∧ comma ∉ rx ∧
      (comma ∈ tx ∨ (rx = [] ∧ tx = []) ∨ rx = filePrefix ∨ tx = filePrefix ∨
        (rx ≠ [] ∧ tx ≠ [] ∧ ifName rx = ifName tx ∧ (isFile rx ∨ isFile tx)))

theorem documented_commas (free : comma ∉ rx) (more : comma ∈ tx) :
    documentedConfigstr (rx ++ comma :: tx) = none := by
  obtain ⟨middle, rest, rfl, first⟩ := List.eq_append_cons_of_mem more
  rw [documentedConfigstr, List.splitOn_append_cons_self_of_not_mem free,
    List.splitOn_append_cons_self_of_not_mem first]
  cases parts : rest.splitOn comma with
  | nil => exact absurd parts (List.splitOn_ne_nil _ _)
  | cons => rfl

theorem misread_pair (free : comma ∉ rx) : Misread (rx ++ comma :: tx) ↔
    (comma ∈ tx ∨ (rx = [] ∧ tx = []) ∨ rx = filePrefix ∨ tx = filePrefix ∨
      (rx ≠ [] ∧ tx ≠ [] ∧ ifName rx = ifName tx ∧ (isFile rx ∨ isFile tx))) := by
  constructor
  · rintro (⟨none_, _⟩ | ⟨front, back, same, free', wrong⟩)
    · simp at none_
    · have rxs := congrArg (List.takeWhile (· ≠ comma)) same
      have txs := congrArg (List.dropWhile (· ≠ comma)) same
      rw [(takeWhile_front free).1, (takeWhile_front free').1] at rxs
      rw [(takeWhile_front free).2, (takeWhile_front free').2] at txs
      obtain ⟨rfl, rfl⟩ := And.intro rxs (List.cons.inj txs).2
      exact wrong
  · exact fun wrong => .inr ⟨rx, tx, rfl, free, wrong⟩

theorem pair_oneFile (oneFile : (compareNames (pairNames rx tx)).2.oneFile = true) :
    rx ≠ [] ∧ tx ≠ [] ∧ ifName rx = ifName tx ∧ isFile rx = true := by
  rw [compareNames] at oneFile
  split at oneFile
  next alike =>
    by_cases noRx : rx = []
    · subst noRx
      cases alike
    · by_cases noTx : tx = []
      · subst noTx
        simp [pairNames, show part [] = none from rfl] at alike
      · simp_all [pairNames, part_of_ne, DpdkNames.oneFile]
  · simp [pairNames, DpdkNames.oneFile] at oneFile

/-- A configuration string is read as documented, and its names are freed once by every failing
`if_dpdk_attach`, exactly if it is not one of these. -/
theorem configstr_right_iff (configstr : CString) :
    (parsedConfigstr configstr.bytes = documentedConfigstr configstr.bytes ∧ FreesOnce configstr) ↔
      ¬Misread configstr.bytes := by
  by_cases free : comma ∈ configstr.bytes
  · obtain ⟨rx, tx, whole, first⟩ := List.eq_append_cons_of_mem free
    have parsed : ifDpdkProcessConfigstr configstr.bytes = _ := whole ▸ process_pair first
    obtain ⟨fails, enabled, named⟩ :=
      compareNames_oneFile (show (pairNames rx tx).txisrx = false from rfl)
    rw [freesOnce_iff, parsedConfigstr, parsed, whole, misread_pair first]
    · by_cases more : comma ∈ tx
      · rw [documented_commas first more]
        simp only [more, true_or, not_true_eq_false, iff_false, not_and, ite_eq_right_iff]
        intro failed single
        exact absurd (fails.mpr fun passed => by cases failed passed) (by simp [single])
      · rw [or_iff_right more, ← documented_pair first more]
        cases oneFile : (compareNames (pairNames rx tx)).2.oneFile with
        | true =>
          obtain ⟨someRx, someTx, same, kind⟩ := pair_oneFile oneFile
          simp [documented_pair first more, someRx, someTx, same, kind]
        | false =>
          rw [if_pos (by simpa [oneFile] using fails.not.mp), eq_comm]
          exact and_iff_left rfl
    · rw [parsed]
      intro oneFile
      refine ⟨fails.mp oneFile, ?_⟩
      rw [named]
      simpa [pairNames] using enabled oneFile
  · have parsed := process_single free
    have single : Misread configstr.bytes ↔ isFile configstr.bytes = true := by
      refine ⟨fun wrong => ?_, fun kind => .inl ⟨free, kind⟩⟩
      rcases wrong with ⟨_, kind⟩ | ⟨rx, tx, whole, _⟩
      · exact kind
      · exact absurd (whole ▸ List.mem_append_right rx List.mem_cons_self) free
    have named : isFile configstr.bytes = true → part configstr.bytes ≠ none := by
      intro kind
      by_cases empty : configstr.bytes = []
      · rw [empty] at kind
        cases kind
      · simp [part_of_ne empty]
    rw [freesOnce_iff, documented_single free, single, parsed]
    · cases kind : isFile configstr.bytes <;> cases found : part configstr.bytes <;>
        simp [DpdkNames.oneFile]
      exact named kind found
    · rw [parsed]
      cases isFile configstr.bytes <;> cases part configstr.bytes <;>
        simp [DpdkNames.oneFile, uinet_ne_zero]

theorem configstr_misread :
    documentedConfigstr [comma] = none ∧ (parsedConfigstr [comma]).isSome ∧
      documentedConfigstr [97, comma, 98, comma, 99] = none ∧
      (parsedConfigstr [97, comma, 98, comma, 99]).isSome ∧
      documentedConfigstr (filePrefix ++ [comma]) = none ∧
      (parsedConfigstr (filePrefix ++ [comma])).isSome ∧
      (parsedConfigstr (filePrefix ++ [97, comma, 97])).map DpdkNames.txisrx = some true ∧
      (ifDpdkAttach false false (some ⟨filePrefix ++ [97], by decide⟩)
        ⟨true, true, true, true, true, true⟩).2.undone.count .rxIfname = 2 := by
  decide

end Libunsod.Uinet
