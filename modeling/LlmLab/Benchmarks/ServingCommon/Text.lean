import LlmLab.Lib.Lines
import Mathlib.Data.List.Lex
import Mathlib.Order.Fin.Basic

/-!
# Python texts

The strings of the Python sources, their UTF-8 encoding and the line boundaries that
`str.splitlines` and the universal newlines of text files know.
-/

namespace LlmLab.Benchmarks

/-- A code point of a Python string, the surrogates among them. -/
abbrev CodePoint := Fin 0x110000

/-- A Python string; strings are compared code point by code point. -/
abbrev Text := List CodePoint

instance instLawfulBEqText : LawfulBEq Text := inferInstance

/-- The contents of a file, and a `std::string`. -/
abbrev Bytes := List UInt8

theorem toNat_lt_codePoints (c : Char) : c.toNat < 0x110000 := by
  have valid := c.valid
  simp only [UInt32.isValidChar, Nat.isValidChar] at valid
  change c.val.toNat < 0x110000
  omega

/-- `ord`. -/
def codePoint (c : Char) : CodePoint := ⟨c.toNat, toNat_lt_codePoints c⟩

/-- A string literal of the sources. -/
def text (s : String) : Text := s.toList.map codePoint

theorem codePoint_injective : Function.Injective codePoint := fun _ _ same =>
  Char.toNat_inj.mp (Fin.mk.inj same)

theorem text_injective : Function.Injective text := fun _ _ same =>
  String.toList_injective (List.map_injective_iff.mpr codePoint_injective same)

@[simp] theorem codePoint_val (c : Char) : (codePoint c).val = c.toNat := rfl

/-! ## UTF-8 -/

/-- The character at a code point; a surrogate has none. -/
def CodePoint.char? (c : CodePoint) : Option Char :=
  if valid : c.val.isValidChar then some (Char.ofNatAux c.val valid) else none

/-- `str.encode("utf-8")`, which has no bytes for a surrogate. -/
def encodeUtf8 : Text → Option Bytes
  | [] => some []
  | c :: rest => do return String.utf8EncodeChar (← CodePoint.char? c) ++ (← encodeUtf8 rest)

/-- A code point is a character exactly when it is that character's. -/
theorem CodePoint.char?_eq_some_iff {c : CodePoint} {char : Char} :
    CodePoint.char? c = some char ↔ c = codePoint char := by
  unfold CodePoint.char?
  rcases Decidable.em c.val.isValidChar with valid | invalid
  · have back : (Char.ofNatAux c.val valid).toNat = c.val := rfl
    rw [dif_pos valid, Option.some.injEq]
    constructor
    · rintro rfl
      exact Fin.ext back.symm
    · rintro rfl
      exact Char.toNat_inj.mp back
  · rw [dif_neg invalid]
    constructor
    · exact fun absent => by cases absent
    · rintro rfl
      exact absurd char.valid invalid

/-- A text with an encoding is a text of characters. -/
theorem encodeUtf8_eq_some_iff {t : Text} {bytes : Bytes} :
    encodeUtf8 t = some bytes ↔
      ∃ chars : List Char, t = chars.map codePoint ∧ bytes = chars.flatMap String.utf8EncodeChar := by
  induction t generalizing bytes with
  | nil =>
      rw [encodeUtf8, Option.some.injEq]
      constructor
      · rintro rfl
        exact ⟨[], rfl, rfl⟩
      · rintro ⟨chars, nothing, rfl⟩
        rw [List.map_eq_nil_iff.mp nothing.symm]
        rfl
  | cons c rest ih =>
      constructor
      · intro encoded
        rw [encodeUtf8] at encoded
        obtain ⟨char, found, encoded⟩ := Option.bind_eq_some_iff.mp encoded
        obtain ⟨tail, encodedRest, encoded⟩ := Option.bind_eq_some_iff.mp encoded
        obtain ⟨chars, rfl, rfl⟩ := ih.mp encodedRest
        exact ⟨char :: chars, by rw [CodePoint.char?_eq_some_iff.mp found, List.map_cons],
          by rw [← Option.some.inj encoded, List.flatMap_cons]⟩
      · rintro ⟨chars, same, rfl⟩
        cases chars with
        | nil => cases same
        | cons char chars =>
            obtain ⟨rfl, rfl⟩ := List.cons.inj same
            rw [encodeUtf8, CodePoint.char?_eq_some_iff.mpr rfl, ih.mpr ⟨chars, rfl, rfl⟩]
            rfl

theorem encodeUtf8_append {s t : Text} {bytes : Bytes} :
    encodeUtf8 (s ++ t) = some bytes ↔
      ∃ first second, encodeUtf8 s = some first ∧ encodeUtf8 t = some second ∧
        bytes = first ++ second := by
  simp only [encodeUtf8_eq_some_iff]
  constructor
  · rintro ⟨chars, joined, rfl⟩
    obtain ⟨front, back, rfl, rfl, rfl⟩ := List.append_eq_map_iff.mp joined
    exact ⟨_, _, ⟨front, rfl, rfl⟩, ⟨back, rfl, rfl⟩, List.flatMap_append⟩
  · rintro ⟨_, _, ⟨front, rfl, rfl⟩, ⟨back, rfl, rfl⟩, rfl⟩
    exact ⟨front ++ back, List.map_append.symm, List.flatMap_append.symm⟩

/-- `bytes.decode("utf-8")`. -/
def decodeUtf8 (bytes : Bytes) : Option Text :=
  bytes.toByteArray.utf8Decode?.map fun chars => chars.toList.map codePoint

theorem decodeUtf8_encodeUtf8 {t : Text} {bytes : Bytes} (encoded : encodeUtf8 t = some bytes) :
    decodeUtf8 bytes = some t := by
  obtain ⟨chars, rfl, rfl⟩ := encodeUtf8_eq_some_iff.mp encoded
  have decoded : (chars.flatMap String.utf8EncodeChar).toByteArray.utf8Decode? =
      some chars.toArray := List.utf8Decode?_utf8Encode
  rw [decodeUtf8, decoded]
  rfl

theorem encodeUtf8_injective {s t : Text} {bytes : Bytes} (first : encodeUtf8 s = some bytes)
    (second : encodeUtf8 t = some bytes) : s = t :=
  Option.some.inj ((decodeUtf8_encodeUtf8 first).symm.trans (decodeUtf8_encodeUtf8 second))

/-- An ASCII character is one byte, and the bytes of the others lie above ASCII. -/
theorem utf8EncodeChar_ascii {c : Char} (ascii : c.toNat < 0x80) :
    String.utf8EncodeChar c = [UInt8.ofNat c.toNat] :=
  if_pos (Nat.le_of_lt_succ ascii)

/-- An ASCII byte of an encoded character is the whole character. -/
theorem toNat_of_mem_utf8EncodeChar {c : Char} {byte : UInt8} (ascii : byte.toNat < 0x80)
    (member : byte ∈ String.utf8EncodeChar c) : c.toNat = byte.toNat := by
  change byte ∈ ite (c.toNat ≤ 0x7f) _ _ at member
  split at member
  · rw [List.mem_singleton.mp member, UInt8.toNat_ofNat']
    exact (Nat.mod_eq_of_lt (by omega)).symm
  · -- Each byte of a longer encoding is the image of a number from 0x80 on.
    have high : ∀ lows : List Nat, (∀ low ∈ lows, 0x80 ≤ low ∧ low < 0x100) →
        byte ∉ lows.map UInt8.ofNat := by
      intro lows above member
      obtain ⟨low, inside, rfl⟩ := List.mem_map.mp member
      have bounds := above low inside
      rw [UInt8.toNat_ofNat', Nat.mod_eq_of_lt bounds.2] at ascii
      omega
    split at member
    · exact absurd member (high [_, _] (by simp; omega))
    · split at member
      · exact absurd member (high [_, _, _] (by simp; omega))
      · exact absurd member (high [_, _, _, _] (by simp; omega))

/-- An ASCII text has one byte for each character. -/
theorem encodeUtf8_ascii {chars : List Char} (ascii : ∀ c ∈ chars, c.toNat < 0x80) :
    encodeUtf8 (chars.map codePoint) = some (chars.map fun c => UInt8.ofNat c.toNat) := by
  refine encodeUtf8_eq_some_iff.mpr ⟨chars, rfl, ?_⟩
  induction chars with
  | nil => rfl
  | cons c chars ih =>
      rw [List.flatMap_cons, utf8EncodeChar_ascii (ascii c List.mem_cons_self),
        ← ih fun other member => ascii other (List.mem_cons_of_mem c member)]
      rfl

/-- An ASCII byte of the encoding stands for that character. -/
theorem mem_of_mem_encodeUtf8 {t : Text} {bytes : Bytes} {byte : UInt8}
    (encoded : encodeUtf8 t = some bytes) (ascii : byte.toNat < 0x80) (member : byte ∈ bytes) :
    ∃ c ∈ t, c.val = byte.toNat := by
  obtain ⟨chars, rfl, rfl⟩ := encodeUtf8_eq_some_iff.mp encoded
  obtain ⟨char, inside, among⟩ := List.mem_flatMap.mp member
  exact ⟨codePoint char, List.mem_map_of_mem inside, toNat_of_mem_utf8EncodeChar ascii among⟩

theorem encodeUtf8_eq_nil {t : Text} (encoded : encodeUtf8 t = some []) : t = [] :=
  encodeUtf8_injective encoded rfl

/-- Fields and what stands between them are encoded one by one. -/
theorem encodeUtf8_intercalate {separator : Text} {mark bytes : Bytes} {fields : List Text}
    (between : encodeUtf8 separator = some mark)
    (whole : encodeUtf8 (separator.intercalate fields) = some bytes) :
    ∃ parts, List.Forall₂ (fun field part => encodeUtf8 field = some part) fields parts ∧
      bytes = mark.intercalate parts := by
  induction fields generalizing bytes with
  | nil => exact ⟨[], List.Forall₂.nil, (Option.some.inj whole).symm⟩
  | cons field fields ih =>
      rcases fields with _ | ⟨next, rest⟩
      · rw [List.intercalate_singleton] at whole
        exact ⟨[bytes], List.Forall₂.cons whole List.Forall₂.nil,
          List.intercalate_singleton.symm⟩
      · rw [List.intercalate_cons_cons] at whole
        obtain ⟨front, later, front_eq, later_eq, rfl⟩ := encodeUtf8_append.mp whole
        obtain ⟨part, middle, part_eq, middle_eq, rfl⟩ := encodeUtf8_append.mp front_eq
        obtain ⟨parts, each, rfl⟩ := ih later_eq
        obtain rfl := Option.some.inj (middle_eq.symm.trans between)
        rcases each with _ | ⟨first, others⟩
        exact ⟨_, List.Forall₂.cons part_eq (List.Forall₂.cons first others),
          List.intercalate_cons_cons.symm⟩

/-- Texts joined by a separator are encoded as their encodings joined by its encoding. -/
theorem encodeUtf8_intercalate_of {separator : Text} {mark : Bytes} {fields : List Text}
    {parts : List Bytes} (between : encodeUtf8 separator = some mark)
    (each : List.Forall₂ (fun field part => encodeUtf8 field = some part) fields parts) :
    encodeUtf8 (separator.intercalate fields) = some (mark.intercalate parts) := by
  induction each with
  | nil => rfl
  | @cons field part fields parts here rest ih =>
      cases rest with
      | nil => simpa using here
      | cons next others =>
          rw [List.intercalate_cons_cons, List.intercalate_cons_cons]
          exact encodeUtf8_append.mpr ⟨_, _, encodeUtf8_append.mpr ⟨_, _, here, between, rfl⟩, ih, rfl⟩

/-! ## ASCII -/

/-- A text of ASCII characters. -/
def Ascii (t : Text) : Prop := ∀ c ∈ t, c.val < 0x80

theorem ascii_append {s t : Text} (left : Ascii s) (right : Ascii t) : Ascii (s ++ t) :=
  fun c member => (List.mem_append.mp member).elim (left c) (right c)

theorem ascii_text {s : String} (plain : s.toList.all (fun c => decide (c.toNat < 0x80)) = true) :
    Ascii (text s) := fun c member => by
  obtain ⟨char, inside, rfl⟩ := List.mem_map.mp member
  exact of_decide_eq_true (List.all_eq_true.mp plain char inside)

theorem encodeUtf8_of_ascii {t : Text} (ascii : Ascii t) : ∃ bytes, encodeUtf8 t = some bytes := by
  induction t with
  | nil => exact ⟨[], rfl⟩
  | cons c rest ih =>
      obtain ⟨tail, encoded⟩ := ih fun other member => ascii other (List.mem_cons_of_mem c member)
      have low : c.val < 0x80 := ascii c List.mem_cons_self
      have valid : c.val.isValidChar := Or.inl (Nat.lt_trans low (by decide))
      exact ⟨_, by rw [encodeUtf8, CodePoint.char?, dif_pos valid, encoded]; rfl⟩

/-! ## Lines -/

def carriageReturn : CodePoint := codePoint '\r'

def lineFeed : CodePoint := codePoint '\n'

/-- A carriage return in front of a line feed belongs to it. -/
def joinCrLf : Text → Text
  | [] => []
  | c :: rest =>
      if c = carriageReturn ∧ rest.head? = some lineFeed then joinCrLf rest else c :: joinCrLf rest

/-- The text that a file opened for reading text gives for its decoded contents. -/
def universalNewlines (t : Text) : Text :=
  (joinCrLf t).map fun c => if c = carriageReturn then lineFeed else c

/-- The line boundaries of `str.splitlines`. -/
def isLineBoundary (c : CodePoint) : Bool :=
  [0x0a, 0x0b, 0x0c, 0x0d, 0x1c, 0x1d, 0x1e, 0x85, 0x2028, 0x2029].contains c.val

/-- `str.isspace` for one code point. -/
def isSpace (c : CodePoint) : Bool :=
  (List.range' 0x09 5 ++ List.range' 0x1c 5 ++ [0x85, 0xa0, 0x1680] ++ List.range' 0x2000 11 ++
    [0x2028, 0x2029, 0x202f, 0x205f, 0x3000]).contains c.val

/-- `str.splitlines`. -/
def splitlines (t : Text) : List Text := linesBy isLineBoundary (joinCrLf t)

theorem joinCrLf_of_notMem {t : Text} (absent : carriageReturn ∉ t) : joinCrLf t = t := by
  induction t with
  | nil => rfl
  | cons c rest ih =>
      rw [List.mem_cons, not_or] at absent
      rw [joinCrLf, if_neg fun both => absent.1 both.1.symm, ih absent.2]

theorem universalNewlines_of_notMem {t : Text} (absent : carriageReturn ∉ t) :
    universalNewlines t = t := by
  rw [universalNewlines, joinCrLf_of_notMem absent]
  refine (List.map_congr_left fun c member => ?_).trans (List.map_id t)
  exact if_neg fun (here : c = carriageReturn) => absent (here ▸ member)

end LlmLab.Benchmarks
