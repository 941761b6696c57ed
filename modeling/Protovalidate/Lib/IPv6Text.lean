import Mathlib.Data.BitVec
import Protovalidate.Lib.DottedQuad

/-! The textual forms of an IPv6 address: groups of one to four hexadecimal
digits between colons, an elision that stands for zero groups, and a dotted
quad in place of the last two groups. -/

namespace Protovalidate.Lib

open Foundation

/-- One group of a textual address. -/
structure Hexadecatet where
  text : StringView
  digits : ∀ c ∈ text, hexDigit c = true
  nonempty : text ≠ []
  width : text.length ≤ 4

/-- A group of one digit. -/
def Hexadecatet.single (c : Char) (isHex : hexDigit c = true) : Hexadecatet :=
  ⟨[c], by simpa using isHex, by simp, by simp⟩

def Hexadecatet.value (group : Hexadecatet) : Nat := hexadecimalValue group.text

/-- The two groups a dotted quad stands for. -/
def Octets.words (octets : Octets) : List Nat :=
  [octets.first.val * 256 + octets.second.val, octets.third.val * 256 + octets.fourth.val]

/-- What stands between colons: groups, and a dotted quad in last place. -/
structure Parts where
  groups : List Hexadecatet
  quad : Option Octets := none

namespace Parts

def quadCount (parts : Parts) : Nat := if parts.quad.isSome then 2 else 0

def count (parts : Parts) : Nat := parts.groups.length + parts.quadCount

def texts (parts : Parts) : List StringView :=
  parts.groups.map Hexadecatet.text ++ parts.quad.toList.map Octets.text

def text (parts : Parts) : StringView := [':'].intercalate parts.texts

def words (parts : Parts) : List Nat :=
  parts.groups.map Hexadecatet.value ++ parts.quad.toList.flatMap Octets.words

end Parts

def elidedText (before : List Hexadecatet) (after : Parts) : StringView :=
  (Parts.mk before none).text ++ ':' :: ':' :: after.text

/-- A textual address without a zone. -/
inductive IPv6Text where
  | full (parts : Parts) (eight : parts.count = 8)
  | elided (before : List Hexadecatet) (after : Parts) (room : before.length + after.count ≤ 7)

namespace IPv6Text

def text : IPv6Text → StringView
  | full parts _ => parts.text
  | elided before after _ => elidedText before after

/-- The eight groups, with zeros for the elided ones. -/
def words : IPv6Text → List Nat
  | full parts _ => parts.words
  | elided before after _ =>
    before.map Hexadecatet.value ++ List.replicate (8 - (before.length + after.count)) 0 ++ after.words

/-- The address a text denotes: eight groups of sixteen bits, most significant first. -/
def value (t : IPv6Text) : BitVec 128 := BitVec.ofNat 128 (positional 65536 id 0 t.words)

end IPv6Text

theorem length_words (parts : Parts) : parts.words.length = parts.count := by
  obtain ⟨groups, quad⟩ := parts
  cases quad <;> simp [Parts.words, Parts.count, Parts.quadCount, Octets.words]

theorem IPv6Text.length_words (t : IPv6Text) : t.words.length = 8 := by
  cases t with
  | full parts eight => rw [words, Lib.length_words, eight]
  | elided before after room =>
    simp only [words, List.length_append, List.length_map, List.length_replicate, Lib.length_words]
    omega

section Joining

/-- Parts with a colon in front of each. -/
def colonGroups (groups : List Hexadecatet) : StringView := groups.flatMap fun group => ':' :: group.text

@[simp] theorem colonGroups_nil : colonGroups [] = [] := rfl

@[simp] theorem colonGroups_cons (group : Hexadecatet) (groups : List Hexadecatet) :
    colonGroups (group :: groups) = ':' :: (group.text ++ colonGroups groups) := rfl

@[simp] theorem colonGroups_append (front back : List Hexadecatet) :
    colonGroups (front ++ back) = colonGroups front ++ colonGroups back := List.flatMap_append

/-- The dotted quad with the colon in front of it. -/
def colonQuad : Option Octets → StringView
  | none => []
  | some octets => ':' :: octets.text

theorem colon_intercalate (part : StringView) (parts : List StringView) :
    ':' :: [':'].intercalate (part :: parts) = (part :: parts).flatMap (':' :: ·) := by
  induction parts generalizing part with
  | nil => simp
  | cons next parts ih =>
    rw [List.flatMap_cons, ← ih next, List.intercalate_cons_cons]
    simp

theorem Parts.texts_eq_nil {parts : Parts} : parts.texts = [] ↔ parts.groups = [] ∧ parts.quad = none := by
  obtain ⟨groups, quad⟩ := parts
  cases quad <;> simp [texts]

@[simp] theorem Parts.text_nil : (Parts.mk [] none).text = [] := rfl

theorem Parts.colon_text (parts : Parts) (some_ : parts.texts ≠ []) :
    ':' :: parts.text = colonGroups parts.groups ++ colonQuad parts.quad := by
  obtain ⟨groups, quad⟩ := parts
  have joined : ∀ texts : List StringView, texts ≠ [] →
      ':' :: [':'].intercalate texts = texts.flatMap (':' :: ·) := by
    intro texts nonempty
    cases texts with
    | nil => exact (nonempty rfl).elim
    | cons part parts => exact colon_intercalate part parts
  rw [text, joined _ some_]
  cases quad <;> simp [texts, colonQuad, colonGroups, List.flatMap_map]

/-- The first group stands without a colon. -/
theorem Parts.text_cons (group : Hexadecatet) (groups : List Hexadecatet) (quad : Option Octets) :
    (Parts.mk (group :: groups) quad).text = group.text ++ colonGroups groups ++ colonQuad quad := by
  have joined := Parts.colon_text ⟨group :: groups, quad⟩ (by simp [texts])
  simpa using joined

theorem Parts.text_quad (octets : Octets) : (Parts.mk [] (some octets)).text = octets.text := by
  simp [Parts.text, Parts.texts]

end Joining

section Characters

theorem hexDigit_of_isDigit {c : Char} (isDigit : c.isDigit = true) : hexDigit c = true := by
  have inNum : num c = true := by simpa [num, charRange, Char.isDigit, Char.le_def] using isDigit
  simp [hexDigit, concatRanges, inNum]

theorem hexDigit_ne {c d : Char} (isHex : hexDigit c = true) (other : hexDigit d = false) : c ≠ d := by
  rintro rfl
  simp [isHex] at other

/-- What may stand behind an address: nothing that continues its text. -/
def Delimited (rest : StringView) : Prop := Stops (fun c => hexDigit c || c == ':' || c == '.') rest

variable {rest : StringView}

theorem delimited_iff :
    Delimited rest ↔ Stops hexDigit rest ∧ rest.head? ≠ some ':' ∧ rest.head? ≠ some '.' := by
  cases rest with
  | nil => simp [Delimited]
  | cons c rest => simp [Delimited, and_assoc]

theorem Delimited.hex (delimited : Delimited rest) : Stops hexDigit rest := (delimited_iff.mp delimited).1

theorem Delimited.colon (delimited : Delimited rest) : rest.head? ≠ some ':' :=
  (delimited_iff.mp delimited).2.1

theorem Delimited.dot (delimited : Delimited rest) : rest.head? ≠ some '.' :=
  (delimited_iff.mp delimited).2.2

theorem stops_digit_of_hex (stops : Stops hexDigit rest) : Stops Char.isDigit rest := by
  intro c next
  cases isDigit : c.isDigit with
  | false => rfl
  | true => simpa [hexDigit_of_isDigit isDigit] using stops c next

theorem Delimited.digit (delimited : Delimited rest) : Stops Char.isDigit rest :=
  stops_digit_of_hex delimited.hex

theorem octetText_hexDigit {octet : Fin 256} : ∀ c ∈ octetText octet, hexDigit c = true :=
  fun c member => hexDigit_of_isDigit (octetText_digits c member)

/-- The first character of a group or an octet. -/
theorem head_of_run {word : StringView} (run : ∀ c ∈ word, hexDigit c = true) (nonempty : word ≠ [])
    (rest : StringView) : ∃ c, (word ++ rest).head? = some c ∧ hexDigit c = true := by
  cases word with
  | nil => exact (nonempty rfl).elim
  | cons c tail => exact ⟨c, rfl, run c (by simp)⟩

theorem Hexadecatet.head (group : Hexadecatet) (rest : StringView) :
    ∃ c, (group.text ++ rest).head? = some c ∧ hexDigit c = true :=
  head_of_run group.digits group.nonempty rest

theorem Octets.head (octets : Octets) (rest : StringView) :
    ∃ c, (octets.text ++ rest).head? = some c ∧ hexDigit c = true := by
  rw [text, List.append_assoc]
  exact head_of_run octetText_hexDigit (octetText_ne_nil octets.first) _

end Characters

end Protovalidate.Lib
