import Protovalidate.Foundation.Words
import Protovalidate.Lib.IPv6Run

/-! What the address loop answers on the textual forms, with any text behind
them that does not continue the address. -/

namespace Protovalidate.Lib.IPv6Parser

open Foundation

/-- The look-ahead takes the last group for the start of a dotted quad. -/
def misreadsGroup (groups : List Hexadecatet) (tail : StringView) : Bool :=
  groups.getLast?.any fun group => checkDotted (group.text ++ tail)

namespace AddressState

def start (str : StringView) : AddressState := ⟨str, 0, 0, 0, false⟩

def groups (s : AddressState) (groups : List Hexadecatet) (rest : StringView) : AddressState :=
  { s with str := rest, b := shiftIn 16 s.b (groups.map Hexadecatet.value),
           index := s.index + groups.length }

section Transitions

variable {s : AddressState} {group : Hexadecatet} {groups : List Hexadecatet} {octets : Octets}
variable {str rest tail : StringView}

@[simp] theorem colon_group : (s.colon str).group group rest = s.group group rest := rfl

@[simp] theorem group_colon : (s.group group str).colon rest = s.group group rest := rfl

@[simp] theorem group_groups : (s.group group str).groups groups rest = s.groups (group :: groups) rest := by
  simp only [AddressState.group, AddressState.groups, List.map_cons, shiftIn_cons, List.length_cons,
    Nat.add_assoc, Nat.add_comm 1]

end Transitions

end AddressState

open AddressState

section Loop

variable {s next : AddressState} {rest tail : StringView}

theorem addressLoop_again (round : addressRound s = .again next) : addressLoop s = addressLoop next :=
  Control.loop_again addressRound_decreases round

theorem addressLoop_leave {result : Option AddressState} (round : addressRound s = .leave result) :
    addressLoop s = result :=
  Control.loop_leave addressRound_decreases round

theorem addressLoop_group (group : Hexadecatet) (within : s.index < 8) (same : s.str = group.text ++ tail)
    (stops : Stops hexDigit tail) (undotted : tail.head? ≠ some '.') :
    addressLoop s =
      if s.watching && checkDotted (group.text ++ tail) then none else addressLoop (s.group group tail) := by
  split
  · rename_i seen
    rw [Bool.and_eq_true] at seen
    apply addressLoop_leave
    apply round_misread within seen.1
    · rw [same, seen.2]
    · rw [same, parseDotted_group group stops undotted]
  · rename_i clear
    apply addressLoop_again
    apply round_group within _ same stops
    rw [same]
    simpa using clear

/-- A colon in front of a part makes no difference to the loop. -/
theorem addressLoop_part (within : s.index < 8) (started : s.index ≠ 0) (more : rest ≠ [])
    (single : rest.head? ≠ some ':') :
    addressLoop (s.colon (':' :: rest)) = addressLoop (s.colon rest) :=
  addressLoop_again (s := s.colon (':' :: rest)) (round_colon within started rfl more single)

theorem Hexadecatet.part (group : Hexadecatet) (rest : StringView) :
    group.text ++ rest ≠ [] ∧ (group.text ++ rest).head? ≠ some ':' := by
  obtain ⟨c, next, isHex⟩ := group.head rest
  refine ⟨?_, ?_⟩
  · intro empty
    simp [empty] at next
  · rw [next]
    simpa using hexDigit_ne isHex (by decide)

theorem stops_colonGroups (groups : List Hexadecatet) (stops : Stops hexDigit tail) :
    Stops hexDigit (colonGroups groups ++ tail) := by
  cases groups with
  | nil => exact stops
  | cons group groups => exact stops_colon

theorem undotted_colonGroups (groups : List Hexadecatet) (undotted : tail.head? ≠ some '.') :
    (colonGroups groups ++ tail).head? ≠ some '.' := by
  cases groups with
  | nil => exact undotted
  | cons group groups => simp

/-- A run of groups is read up to its last group, where the look-ahead may misfire. -/
theorem addressLoop_groups (groups : List Hexadecatet) (started : s.index ≠ 0)
    (room : s.index + groups.length ≤ 8) (stops : Stops hexDigit tail) (undotted : tail.head? ≠ some '.') :
    addressLoop (s.colon (colonGroups groups ++ tail)) =
      if (s.doubleColonFound || s.index + groups.length == 7) && misreadsGroup groups tail then none
      else addressLoop (s.groups groups tail) := by
  induction groups generalizing s with
  | nil => simp [misreadsGroup, AddressState.groups, AddressState.colon]
  | cons group groups ih =>
    have within : s.index < 8 := by simp only [List.length_cons] at room; omega
    obtain ⟨more, single⟩ := Hexadecatet.part group (colonGroups groups ++ tail)
    have entered := addressLoop_part (s := s) within started more single
    have read := addressLoop_group (s := s.colon (group.text ++ (colonGroups groups ++ tail))) group within rfl
      (stops_colonGroups groups stops) (undotted_colonGroups groups undotted)
    rw [colonGroups_cons, List.cons_append, List.append_assoc, entered, read]
    cases groups with
    | nil =>
      have position : (s.index + 1 == 7) = (s.index == hexadecatetsCount - 2) := by
        simp [hexadecatetsCount]
      simp only [colonGroups_nil, List.nil_append, List.length_singleton, position, misreadsGroup,
        List.getLast?_singleton, Option.any_some]
      rfl
    | cons next groups =>
      have quiet := checkDotted_group_group group next (undotted_colonGroups groups undotted)
      have continued := ih (s := s.group group (colonGroups (next :: groups) ++ tail))
        (Nat.succ_ne_zero _) (by simp only [AddressState.group, List.length_cons] at room ⊢; omega)
      have position : (s.group group (colonGroups (next :: groups) ++ tail)).index + (next :: groups).length =
          s.index + (group :: next :: groups).length := by
        simp only [AddressState.group, List.length_cons]
        omega
      rw [group_colon, group_groups, position] at continued
      simp only [colonGroups_cons, List.cons_append, List.append_assoc] at continued ⊢
      rw [quiet, Bool.and_false, if_neg Bool.false_ne_true, colon_group, continued]
      simp only [misreadsGroup, List.getLast?_cons_cons, AddressState.group]
      rfl

theorem addressLoop_end (delimited : Delimited s.str) :
    addressLoop s = if s.index < 8 ∧ s.watching = true ∧ checkDotted s.str = true then none else some s := by
  by_cases within : s.index < 8
  · split
    · rename_i seen
      exact addressLoop_leave (round_misread within seen.2.1 seen.2.2 (parseDotted_none delimited.hex))
    · rename_i clear
      apply addressLoop_leave
      apply round_open within _ delimited.hex delimited.colon
      rw [← Bool.not_eq_true, Bool.and_eq_true]
      exact fun seen => clear ⟨within, seen⟩
  · rw [if_neg fun seen => within seen.1]
    exact addressLoop_leave (round_full (by omega))

theorem addressLoop_octets (octets : Octets) (within : s.index < 8) (started : s.index ≠ 0)
    (watching : s.watching = true) (stops : Stops Char.isDigit rest) :
    addressLoop (s.colon (':' :: (octets.text ++ rest))) = some (s.dotted octets rest) := by
  obtain ⟨c, next, isHex⟩ := octets.head rest
  have more : octets.text ++ rest ≠ [] := by
    intro empty
    simp [empty] at next
  have single : (octets.text ++ rest).head? ≠ some ':' := by
    rw [next]
    simpa using hexDigit_ne isHex (by decide)
  rw [addressLoop_part within started more single]
  exact addressLoop_leave (round_dotted (s := s.colon _) within watching rfl stops)

/-- From the start, without a colon in front of the first group. -/
theorem addressLoop_start (groups : List Hexadecatet) (room : groups.length ≤ 8) (stops : Stops hexDigit tail)
    (undotted : tail.head? ≠ some '.') (str : StringView)
    (same : str = (Parts.mk groups none).text ++ tail) :
    addressLoop (start str) =
      if groups.length = 7 ∧ misreadsGroup groups tail = true then none
      else addressLoop ((start str).groups groups tail) := by
  subst same
  cases groups with
  | nil => simp [AddressState.groups, start]
  | cons group groups =>
    have read := addressLoop_group (s := start (group.text ++ (colonGroups groups ++ tail))) group
      (by simp [start]) rfl (stops_colonGroups groups stops) (undotted_colonGroups groups undotted)
    have notYet : (start (group.text ++ (colonGroups groups ++ tail))).watching = false := by
      simp [watching, start, hexadecatetsCount]
    have continued := addressLoop_groups
      (s := (start (group.text ++ (colonGroups groups ++ tail))).group group (colonGroups groups ++ tail))
      groups (Nat.succ_ne_zero _) (by
        simp only [AddressState.group, start, List.length_cons] at room ⊢
        omega) stops undotted
    rw [group_colon, group_groups] at continued
    rw [Parts.text_cons, colonQuad, List.append_nil, List.append_assoc, read, notYet, Bool.false_and,
      if_neg Bool.false_ne_true, continued]
    simp only [AddressState.group, start, Bool.false_or, Bool.and_eq_true, beq_iff_eq, List.length_cons]
    cases groups with
    | nil => simp [misreadsGroup]
    | cons next groups =>
      simp only [misreadsGroup, List.getLast?_cons_cons, List.length_cons, Nat.zero_add, Nat.add_comm 1]

end Loop

section Elision

variable {before groups : List Hexadecatet} {octets : Octets} {rest tail : StringView}

/-- The state behind the groups in front of an elision, and the elision. -/
def AddressState.afterElision (before : List Hexadecatet) (rest : StringView) : AddressState :=
  ((start []).groups before []).elide rest

@[simp] theorem afterElision_colon : (afterElision before tail).colon rest = afterElision before rest := rfl

@[simp] theorem afterElision_index : (afterElision before rest).index = before.length + 1 := by
  simp [afterElision, elide, AddressState.groups, start]

@[simp] theorem afterElision_found : (afterElision before rest).doubleColonFound = true := rfl

theorem misreadsGroup_elision (undotted : rest.head? ≠ some '.') :
    misreadsGroup groups (':' :: ':' :: rest) = false := by
  have second : rest[0]? ≠ some '.' := by rwa [← List.head?_eq_getElem?]
  rw [← Bool.not_eq_true, misreadsGroup, Option.any_eq_true]
  rintro ⟨group, -, misread⟩
  rw [checkDotted_group group (by simp)] at misread
  obtain ⟨-, ⟨-, found | found⟩ | ⟨-, found⟩⟩ := misread <;> simp_all

theorem addressLoop_elision (before : List Hexadecatet) (room : before.length ≤ 7) (single : rest.head? ≠ some ':')
    (undotted : rest.head? ≠ some '.') :
    addressLoop (start ((Parts.mk before none).text ++ ':' :: ':' :: rest)) =
      addressLoop (afterElision before rest) := by
  rw [addressLoop_start before (by omega) stops_colon (by simp) _ rfl, misreadsGroup_elision undotted,
    if_neg (by simp)]
  apply addressLoop_again
  exact round_elide (by simp only [AddressState.groups, start]; omega) rfl rfl single

theorem addressLoop_elided_groups (room : before.length + groups.length ≤ 7) (stops : Stops hexDigit tail)
    (undotted : tail.head? ≠ some '.') :
    addressLoop (afterElision before ((Parts.mk groups none).text ++ tail)) =
      if misreadsGroup groups tail then none else addressLoop ((afterElision before tail).groups groups tail) := by
  cases groups with
  | nil => rfl
  | cons group groups =>
    have within : (afterElision before tail).index < 8 := by
      simp only [afterElision_index, List.length_cons] at room ⊢
      omega
    obtain ⟨more, single⟩ := Hexadecatet.part group (colonGroups groups ++ tail)
    have entered := addressLoop_part within (by simp) more single
    have read := addressLoop_groups (s := afterElision before tail) (group :: groups) (by simp)
      (by simp only [afterElision_index, List.length_cons] at room ⊢; omega) stops undotted
    rw [colonGroups_cons, List.cons_append, List.append_assoc, entered] at read
    rw [Parts.text_cons, colonQuad, List.append_nil, List.append_assoc, ← afterElision_colon, read,
      afterElision_found, Bool.true_or, Bool.true_and]

/-- Groups only: read to their end unless the look-ahead misfires at the last
group or behind it. -/
theorem addressLoop_elided_hex (before groups : List Hexadecatet)
    (room : before.length + groups.length ≤ 7) (delimited : Delimited rest) :
    addressLoop (afterElision before ((Parts.mk groups none).text ++ rest)) =
      if misreadsGroup groups rest = true ∨ (before.length + groups.length < 7 ∧ checkDotted rest = true) then none
      else some ((afterElision before rest).groups groups rest) := by
  rw [addressLoop_elided_groups room delimited.hex delimited.dot]
  by_cases misread : misreadsGroup groups rest = true
  · simp [misread]
  · have ends := addressLoop_end (s := (afterElision before rest).groups groups rest) delimited
    have inside : ((afterElision before rest).groups groups rest).index < 8 ↔
        before.length + groups.length < 7 := by
      simp only [AddressState.groups, afterElision_index]
      omega
    have watched : ((afterElision before rest).groups groups rest).watching = true := rfl
    simp only [inside, watched, true_and] at ends
    simp only [misread, Bool.false_eq_true, ↓reduceIte, false_or]
    exact ends

/-- A dotted quad behind the groups. -/
theorem addressLoop_elided_quad (before groups : List Hexadecatet) (octets : Octets)
    (room : before.length + groups.length ≤ 6) (delimited : Delimited rest) :
    addressLoop (afterElision before ((Parts.mk groups (some octets)).text ++ rest)) =
      if misreadsGroup groups (':' :: (octets.text ++ rest)) = true then none
      else some (((afterElision before rest).groups groups rest).dotted octets rest) := by
  have watched : ((afterElision before rest).groups groups rest).watching = true := rfl
  have read := addressLoop_octets octets (s := (afterElision before rest).groups groups rest)
    (by simp only [AddressState.groups, afterElision_index]; omega)
    (by simp only [AddressState.groups, afterElision_index]; omega) watched delimited.digit
  cases groups with
  | nil =>
    obtain ⟨c, next, isHex⟩ := octets.head rest
    have direct : addressLoop (afterElision before (octets.text ++ rest)) =
        some ((afterElision before (octets.text ++ rest)).dotted octets rest) :=
      addressLoop_leave (round_dotted (by simp only [afterElision_index]; omega) rfl rfl delimited.digit)
    rw [Parts.text_quad, direct]
    rfl
  | cons group groups =>
    have same : (Parts.mk (group :: groups) (some octets)).text ++ rest =
        (Parts.mk (group :: groups) none).text ++ ':' :: (octets.text ++ rest) := by
      simp [Parts.text_cons, colonQuad]
    rw [same, addressLoop_elided_groups (by omega) stops_colon (by simp), ← read]
    rfl

/-- A colon behind the groups, which the loop skips unless it ends the input. -/
theorem addressLoop_elided_colon (before groups : List Hexadecatet)
    (room : before.length + groups.length ≤ 6)
    (delimited : Delimited rest) :
    addressLoop (afterElision before ((Parts.mk groups none).text ++ ':' :: rest)) =
      if rest = [] ∨ misreadsGroup groups (':' :: rest) = true ∨ checkDotted rest = true then none
      else some ((afterElision before rest).groups groups rest) := by
  rw [addressLoop_elided_groups (by omega) stops_colon (by simp)]
  by_cases misread : misreadsGroup groups (':' :: rest) = true
  · simp [misread]
  · have within : ((afterElision before (':' :: rest)).groups groups (':' :: rest)).index < 8 := by
      simp only [AddressState.groups, afterElision_index]
      omega
    simp only [misread, Bool.false_eq_true, ↓reduceIte, false_or]
    by_cases empty : rest = []
    · subst empty
      simp [addressLoop_leave (round_colon_end within rfl)]
    · have skipped := addressLoop_part (s := (afterElision before (':' :: rest)).groups groups (':' :: rest))
        within (by simp only [AddressState.groups, afterElision_index]; omega) empty
        delimited.colon
      have ends := addressLoop_end (s := (afterElision before rest).groups groups rest) delimited
      have watched : ((afterElision before rest).groups groups rest).watching = true := rfl
      have inside : ((afterElision before rest).groups groups rest).index < 8 := within
      simp only [inside, watched, true_and] at ends
      simp only [empty, false_or]
      exact skipped.trans ends

end Elision

end Protovalidate.Lib.IPv6Parser
