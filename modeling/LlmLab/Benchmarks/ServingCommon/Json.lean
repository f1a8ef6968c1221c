import LlmLab.Benchmarks.ServingCommon.Text
import LlmLab.Lib.Decimal
import LlmLab.Lib.Lists
import Mathlib.Data.Rat.Defs

/-!
# JSON values

The values `json.loads` yields, their lookup in the Python sources, and `canonical_json` of
`serving_common.py`.
-/

namespace LlmLab.Benchmarks

/-- A Python float: what `json.dumps` prints for it and, when it is finite, its value. -/
structure FloatNumeral where
  literal : String
  value : Option Rat
  printable : ∀ c ∈ literal.toList, 0x20 ≤ c.toNat ∧ c.toNat < 0x7f
deriving DecidableEq

/-- How a printer shows floats. -/
structure NumeralFormat where
  numeral : FloatNumeral → String
  printable : ∀ value, ∀ c ∈ (numeral value).toList, 0x20 ≤ c.toNat ∧ c.toNat < 0x7f

/-- A JSON value.  The members of an object stand in the order of their insertion, which the
equality of Python's dicts does not see. -/
inductive Json where
  | null
  | bool (value : Bool)
  | int (value : Int)
  | float (value : FloatNumeral)
  | str (value : Text)
  | arr (items : List Json)
  | obj (members : List (Text × Json))

/-- The items of a dict. -/
abbrev Record := List (Text × Json)

/-- Whether a value can be a member of a set. -/
def Json.isHashable : Json → Bool
  | .arr _ => false
  | .obj _ => false
  | _ => true

/-! ## Lookup -/

/-- The value when it is an `int`; a `bool` does not count as one. -/
def Json.int? : Json → Option Int
  | .int value => some value
  | _ => none

def Json.bool? : Json → Option Bool
  | .bool value => some value
  | _ => none

def Json.str? : Json → Option Text
  | .str value => some value
  | _ => none

def Json.arr? : Json → Option (List Json)
  | .arr items => some items
  | _ => none

def Json.obj? : Json → Option Record
  | .obj members => some members
  | _ => none

def Json.isNull : Json → Bool
  | .null => true
  | _ => false

namespace Record

/-- `record.get(name)`. -/
def get (record : Record) (name : String) : Json :=
  ((record.find? fun member => member.1 = text name).map Prod.snd).getD .null

/-- `name in record`. -/
def contains (record : Record) (name : String) : Bool :=
  record.any fun member => member.1 = text name

end Record

/-! ## Key order -/

namespace Json

mutual

/-- A value with the members of every object in the order of their keys. -/
def sortKeys : Json → Json
  | .arr items => .arr (sortKeysItems items)
  | .obj members => .obj (sortBy Prod.fst (sortKeysMembers members))
  | .null => .null
  | .bool value => .bool value
  | .int value => .int value
  | .float value => .float value
  | .str value => .str value

def sortKeysItems : List Json → List Json
  | [] => []
  | item :: items => item.sortKeys :: sortKeysItems items

def sortKeysMembers : List (Text × Json) → List (Text × Json)
  | [] => []
  | member :: members => sortKeysMember member :: sortKeysMembers members

def sortKeysMember : Text × Json → Text × Json
  | (key, value) => (key, value.sortKeys)

end

/-- Equality of Python values, for which the order of a dict's items does not count. -/
def Same (left right : Json) : Prop := left.sortKeys = right.sortKeys

/-- The value of a number; Python counts `True` as one. -/
def number? : Json → Option Rat
  | .bool value => some (if value then 1 else 0)
  | .int value => some value
  | .float value => value.value
  | _ => none

/-- `isinstance(value, (int, float))` and no `bool`. -/
def isNumber : Json → Bool
  | .int _ => true
  | .float _ => true
  | _ => false

mutual

/-- `==`: numbers by their value, dicts without regard to order. -/
def equal : Json → Json → Bool
  | .null, .null => true
  | .str left, .str right => left = right
  | .arr left, .arr right => equalItems left right
  | .obj left, .obj right => left.length = right.length && equalMembers left right
  | .float left, .float right =>
      if left.value.isSome then left.value = right.value
      else left.literal = right.literal && left.literal ≠ "NaN"
  | left, right => left.number?.isSome && left.number? = right.number?

def equalItems : List Json → List Json → Bool
  | [], [] => true
  | left :: lefts, right :: rights => left.equal right && equalItems lefts rights
  | _, _ => false

def equalMembers : List (Text × Json) → List (Text × Json) → Bool
  | [], _ => true
  | member :: members, others => equalMember member others && equalMembers members others

def equalMember : Text × Json → List (Text × Json) → Bool
  | (key, value), others =>
      match others.find? fun other => other.1 = key with
      | some other => value.equal other.2
      | none => false

end

mutual

/-- Whether two values are the same in every part, as a Python object and itself are. -/
def identical : Json → Json → Bool
  | .null, .null => true
  | .bool left, .bool right => left = right
  | .int left, .int right => left = right
  | .float left, .float right => left = right
  | .str left, .str right => left = right
  | .arr left, .arr right => identicalItems left right
  | .obj left, .obj right => identicalMembers left right
  | _, _ => false

def identicalItems : List Json → List Json → Bool
  | [], [] => true
  | left :: lefts, right :: rights => left.identical right && identicalItems lefts rights
  | _, _ => false

def identicalMembers : List (Text × Json) → List (Text × Json) → Bool
  | [], [] => true
  | left :: lefts, right :: rights => identicalMember left right && identicalMembers lefts rights
  | _, _ => false

def identicalMember : Text × Json → Text × Json → Bool
  | (key, value), (other, value') => key = other && value.identical value'

end

/-! ## Printing -/

end Json

/-- The most digits of an integer that `str` prints, under CPython's default. -/
def maxStrDigits : Nat := 4300

/-- The message of the `ValueError` that a longer integer raises. -/
def exceedsMaxStrDigits : String :=
  "Exceeds the limit (4300 digits) for integer string conversion; use " ++
    "sys.set_int_max_str_digits() to increase the limit"

/-- An integer that `str` prints. -/
def PrintableInt (number : Int) : Prop :=
  (Nat.toDigits 10 number.natAbs).length ≤ maxStrDigits

instance instDecidablePrintableInt (number : Int) : Decidable (PrintableInt number) :=
  inferInstanceAs (Decidable ((Nat.toDigits 10 number.natAbs).length ≤ maxStrDigits))

theorem printableInt_iff {number : Int} :
    PrintableInt number ↔ number.natAbs < 10 ^ maxStrDigits :=
  Nat.length_toDigits_le_iff (by decide) (by decide)

/-- What a machine integer can hold is printed. -/
theorem printableInt_of_lt {number : Int} (small : number.natAbs < 10 ^ 20) :
    PrintableInt number :=
  printableInt_iff.mpr (small.trans_le (Nat.pow_le_pow_right (by decide) (by decide)))

namespace Json

/-- The escape sequence of a control character. -/
def control (c : CodePoint) : String :=
  match c.val with
  | 0x08 => "\\b"
  | 0x09 => "\\t"
  | 0x0a => "\\n"
  | 0x0c => "\\f"
  | 0x0d => "\\r"
  | other => "\\u00" ++ String.ofList [Nat.digitChar (other / 16), Nat.digitChar (other % 16)]

/-- The character as a JSON string shows it under `ensure_ascii=False`. -/
def escape (c : CodePoint) : Text :=
  if c = codePoint '"' then text "\\\""
  else if c = codePoint '\\' then text "\\\\"
  else if c.val < 0x20 then text (control c)
  else [c]

def quote (s : Text) : Text := text "\"" ++ s.flatMap escape ++ text "\""

section Compact

variable (format : NumeralFormat)

mutual

/-- The text of a value without blanks, and without regard to the length of its integers. -/
def compact : Json → Text
  | .null => text "null"
  | .bool true => text "true"
  | .bool false => text "false"
  | .int value => text (toString value)
  | .float value => text (format.numeral value)
  | .str value => quote value
  | .arr items => text "[" ++ (text ",").intercalate (compactItems items) ++ text "]"
  | .obj members =>
      text "\x7b" ++ (text ",").intercalate (compactMembers members) ++ text "\x7d"

def compactItems : List Json → List Text
  | [] => []
  | item :: items => item.compact :: compactItems items

def compactMembers : List (Text × Json) → List Text
  | [] => []
  | member :: members => compactMember member :: compactMembers members

def compactMember : Text × Json → Text
  | (key, value) => quote key ++ text ":" ++ value.compact

end

end Compact

/-- The floats as `json.dumps` prints them. -/
def dumpsFormat : NumeralFormat := ⟨FloatNumeral.literal, FloatNumeral.printable⟩

mutual

/-- The integers of a value. -/
def integers : Json → List Int
  | .int value => [value]
  | .arr items => integersItems items
  | .obj members => integersMembers members
  | .null => []
  | .bool _ => []
  | .float _ => []
  | .str _ => []

def integersItems : List Json → List Int
  | [] => []
  | item :: items => item.integers ++ integersItems items

def integersMembers : List (Text × Json) → List Int
  | [] => []
  | member :: members => integersMember member ++ integersMembers members

def integersMember : Text × Json → List Int
  | (_, value) => value.integers

end

/-- A value all of whose integers `str` prints. -/
def Printable (value : Json) : Prop := ∀ number ∈ value.integers, PrintableInt number

instance instDecidablePrintable (value : Json) : Decidable value.Printable :=
  inferInstanceAs (Decidable (∀ number ∈ value.integers, PrintableInt number))

/-- `json.dumps(value, separators=(",", ":"), ensure_ascii=False)`, or the message of its
`ValueError`. -/
def dumps (value : Json) : Except String Text :=
  if value.Printable then .ok (value.compact dumpsFormat) else .error exceedsMaxStrDigits

/-- `canonical_json`. -/
def canonicalJson (value : Json) : Except String Text := value.sortKeys.dumps

mutual

/-- The strings of a value, the keys of its objects among them. -/
def strings : Json → List Text
  | .str value => [value]
  | .arr items => stringsItems items
  | .obj members => stringsMembers members
  | .null => []
  | .bool _ => []
  | .int _ => []
  | .float _ => []

def stringsItems : List Json → List Text
  | [] => []
  | item :: items => item.strings ++ stringsItems items

def stringsMembers : List (Text × Json) → List Text
  | [] => []
  | member :: members => stringsMember member ++ stringsMembers members

def stringsMember : Text × Json → List Text
  | (key, value) => key :: value.strings

end

/-- A value all of whose strings have a property. -/
def EachString (holds : Text → Prop) (value : Json) : Prop := ∀ s ∈ value.strings, holds s

/-- A code point inside one of the strings. -/
def Mentions (value : Json) (c : CodePoint) : Prop := ∃ s ∈ value.strings, c ∈ s

/-! ## Induction -/

/-- Induction over a value: an array by its items, an object by the values of its members. -/
theorem induct {motive : Json → Prop} (null : motive .null) (bool : ∀ value, motive (.bool value))
    (int : ∀ value, motive (.int value)) (float : ∀ value, motive (.float value))
    (str : ∀ value, motive (.str value))
    (arr : ∀ items, (∀ item ∈ items, motive item) → motive (.arr items))
    (obj : ∀ members, (∀ member ∈ members, motive member.2) → motive (.obj members))
    (value : Json) : motive value :=
  @Json.rec motive (fun items => ∀ item ∈ items, motive item)
    (fun members => ∀ member ∈ members, motive member.2) (fun member => motive member.2)
    null bool int float str arr obj (List.forall_mem_nil _)
    (fun _ _ head tail => List.forall_mem_cons.mpr ⟨head, tail⟩) (List.forall_mem_nil _)
    (fun _ _ head tail => List.forall_mem_cons.mpr ⟨head, tail⟩) (fun _ _ inner => inner) value

theorem sortKeysItems_eq (items : List Json) : sortKeysItems items = items.map sortKeys := by
  induction items with
  | nil => rfl
  | cons item items ih => rw [sortKeysItems, ih, List.map_cons]

theorem sortKeysMembers_eq (members : List (Text × Json)) :
    sortKeysMembers members = members.map fun member => (member.1, member.2.sortKeys) := by
  induction members with
  | nil => rfl
  | cons member members ih => rw [sortKeysMembers, ih, List.map_cons, sortKeysMember]

theorem compactItems_eq (format : NumeralFormat) (items : List Json) :
    compactItems format items = items.map (compact format) := by
  induction items with
  | nil => rfl
  | cons item items ih => rw [compactItems, ih, List.map_cons]

theorem compactMembers_eq (format : NumeralFormat) (members : List (Text × Json)) :
    compactMembers format members =
      members.map fun member => quote member.1 ++ text ":" ++ member.2.compact format := by
  induction members with
  | nil => rfl
  | cons member members ih => rw [compactMembers, ih, List.map_cons, compactMember]

theorem stringsItems_eq (items : List Json) : stringsItems items = items.flatMap strings := by
  induction items with
  | nil => rfl
  | cons item items ih => rw [stringsItems, ih, List.flatMap_cons]

theorem stringsMembers_eq (members : List (Text × Json)) :
    stringsMembers members = members.flatMap fun member => member.1 :: member.2.strings := by
  induction members with
  | nil => rfl
  | cons member members ih => rw [stringsMembers, ih, List.flatMap_cons, stringsMember]

section EachString

variable {holds : Text → Prop}

theorem eachString_obj {members : Record} :
    (obj members).EachString holds ↔
      ∀ member ∈ members, holds member.1 ∧ member.2.EachString holds := by
  simp only [EachString, strings, stringsMembers_eq, List.mem_flatMap, List.mem_cons]
  constructor
  · exact fun each member inside => ⟨each _ ⟨member, inside, Or.inl rfl⟩,
      fun s found => each s ⟨member, inside, Or.inr found⟩⟩
  · rintro each s ⟨member, inside, rfl | found⟩
    · exact (each member inside).1
    · exact (each member inside).2 s found

theorem eachString_arr {items : List Json} :
    (arr items).EachString holds ↔ ∀ item ∈ items, item.EachString holds := by
  simp only [EachString, strings, stringsItems_eq, List.mem_flatMap]
  exact ⟨fun each item inside s found => each s ⟨item, inside, found⟩,
    fun each s found => found.elim fun item both => each item both.1 s both.2⟩

theorem eachString_str {s : Text} : (str s).EachString holds ↔ holds s :=
  List.forall_mem_singleton

theorem eachString_int {number : Int} : (int number).EachString holds := List.forall_mem_nil _

theorem eachString_ints {numbers : List Int} :
    (arr (numbers.map .int)).EachString holds := by
  rw [eachString_arr, List.forall_mem_map]
  exact fun number _ => eachString_int

end EachString

theorem integersItems_eq (items : List Json) : integersItems items = items.flatMap integers := by
  induction items with
  | nil => rfl
  | cons item items ih => rw [integersItems, ih, List.flatMap_cons]

theorem integersMembers_eq (members : List (Text × Json)) :
    integersMembers members = members.flatMap fun member => member.2.integers := by
  induction members with
  | nil => rfl
  | cons member members ih => rw [integersMembers, ih, List.flatMap_cons, integersMember]

theorem printable_int {number : Int} : (int number).Printable ↔ PrintableInt number :=
  List.forall_mem_singleton

theorem printable_arr {items : List Json} :
    (arr items).Printable ↔ ∀ item ∈ items, item.Printable := by
  simp only [Printable, integers, integersItems_eq, List.mem_flatMap]
  exact ⟨fun each item among number inside => each number ⟨item, among, inside⟩,
    fun each number found => found.elim fun item both => each item both.1 number both.2⟩

theorem printable_obj {members : List (Text × Json)} :
    (obj members).Printable ↔ ∀ member ∈ members, member.2.Printable := by
  simp only [Printable, integers, integersMembers_eq, List.mem_flatMap]
  exact ⟨fun each member among number inside => each number ⟨member, among, inside⟩,
    fun each number found => found.elim fun member both => each member both.1 number both.2⟩

/-- The order of the members does not change what is printed. -/
theorem printable_sortKeys {value : Json} : value.sortKeys.Printable ↔ value.Printable := by
  induction value using induct with
  | null => rfl
  | bool value => rfl
  | int value => rfl
  | float value => rfl
  | str value => rfl
  | arr items ih =>
      rw [sortKeys, sortKeysItems_eq, printable_arr, printable_arr, List.forall_mem_map]
      exact forall₂_congr ih
  | obj members ih =>
      simp only [sortKeys, sortKeysMembers_eq, printable_obj, mem_sortBy, List.forall_mem_map]
      exact forall₂_congr ih

theorem dumps_eq_ok {value : Json} {t : Text} :
    value.dumps = .ok t ↔ value.Printable ∧ value.compact dumpsFormat = t := by
  unfold dumps
  split
  · next fits => rw [Except.ok.injEq, and_iff_right fits]
  · next long => exact ⟨fun bad => (by cases bad), fun both => absurd both.1 long⟩

theorem canonicalJson_eq_ok {value : Json} {t : Text} :
    value.canonicalJson = .ok t ↔ value.Printable ∧ value.sortKeys.compact dumpsFormat = t := by
  rw [canonicalJson, dumps_eq_ok, printable_sortKeys]

section Mentions

variable {c : CodePoint}

theorem mentions_arr {items : List Json} :
    (arr items).Mentions c ↔ ∃ item ∈ items, item.Mentions c := by
  rw [Mentions, strings, stringsItems_eq]
  constructor
  · rintro ⟨s, found, inside⟩
    obtain ⟨item, among, found⟩ := List.mem_flatMap.mp found
    exact ⟨item, among, s, found, inside⟩
  · rintro ⟨item, among, s, found, inside⟩
    exact ⟨s, List.mem_flatMap.mpr ⟨item, among, found⟩, inside⟩

theorem mentions_obj {members : List (Text × Json)} :
    (obj members).Mentions c ↔ ∃ member ∈ members, c ∈ member.1 ∨ member.2.Mentions c := by
  rw [Mentions, strings, stringsMembers_eq]
  constructor
  · rintro ⟨s, found, inside⟩
    obtain ⟨member, among, found⟩ := List.mem_flatMap.mp found
    rcases List.mem_cons.mp found with rfl | found
    · exact ⟨member, among, Or.inl inside⟩
    · exact ⟨member, among, Or.inr ⟨s, found, inside⟩⟩
  · rintro ⟨member, among, here | ⟨s, found, inside⟩⟩
    · exact ⟨member.1, List.mem_flatMap.mpr ⟨member, among, List.mem_cons_self⟩, here⟩
    · exact ⟨s, List.mem_flatMap.mpr ⟨member, among, List.mem_cons_of_mem _ found⟩, inside⟩

/-- The order of the members does not change what is mentioned. -/
theorem mentions_sortKeys {value : Json} : value.sortKeys.Mentions c ↔ value.Mentions c := by
  induction value using induct with
  | null => rfl
  | bool value => rfl
  | int value => rfl
  | float value => rfl
  | str value => rfl
  | arr items ih =>
      rw [sortKeys, sortKeysItems_eq, mentions_arr, mentions_arr]
      constructor
      · rintro ⟨_, among, inside⟩
        obtain ⟨item, listed, rfl⟩ := List.mem_map.mp among
        exact ⟨item, listed, (ih item listed).mp inside⟩
      · rintro ⟨item, among, inside⟩
        exact ⟨_, List.mem_map_of_mem among, (ih item among).mpr inside⟩
  | obj members ih =>
      rw [sortKeys, sortKeysMembers_eq, mentions_obj, mentions_obj]
      constructor
      · rintro ⟨_, among, inside⟩
        obtain ⟨member, listed, rfl⟩ := List.mem_map.mp (mem_sortBy.mp among)
        exact ⟨member, listed, inside.imp id (ih member listed).mp⟩
      · rintro ⟨member, among, inside⟩
        exact ⟨_, mem_sortBy.mpr (List.mem_map_of_mem among),
          inside.imp id (ih member among).mpr⟩

end Mentions

@[simp] theorem int?_sortKeys (value : Json) : value.sortKeys.int? = value.int? := by
  cases value <;> rfl

@[simp] theorem str?_sortKeys (value : Json) : value.sortKeys.str? = value.str? := by
  cases value <;> rfl

theorem arr?_sortKeys (value : Json) : value.sortKeys.arr? = value.arr?.map (·.map sortKeys) := by
  cases value with
  | arr items => rw [sortKeys, sortKeysItems_eq]; rfl
  | _ => rfl

@[simp] theorem isSome_obj?_sortKeys (value : Json) :
    value.sortKeys.obj?.isSome = value.obj?.isSome := by
  cases value <;> rfl

/-- The items of a dict in the order of their keys. -/
def sortedMembers (record : Record) : Record := sortBy Prod.fst (sortKeysMembers record)

theorem sortKeys_obj (record : Record) :
    (obj record).sortKeys = .obj (sortedMembers record) := rfl

/-- Sorting the keys of a value once is enough. -/
theorem sortKeys_sortKeys (value : Json) : value.sortKeys.sortKeys = value.sortKeys := by
  induction value using induct with
  | null => rfl
  | bool value => rfl
  | int value => rfl
  | float value => rfl
  | str value => rfl
  | arr items ih =>
      simp only [sortKeys, sortKeysItems_eq, List.map_map, arr.injEq]
      exact List.map_congr_left fun item listed => ih item listed
  | obj members ih =>
      simp only [sortKeys, obj.injEq]
      have kept : sortKeysMembers (sortBy Prod.fst (sortKeysMembers members)) =
          sortBy Prod.fst (sortKeysMembers members) := by
        rw [sortKeysMembers_eq (sortBy _ _)]
        refine (List.map_congr_left fun member listed => ?_).trans (List.map_id _)
        rw [mem_sortBy, sortKeysMembers_eq, List.mem_map] at listed
        obtain ⟨source, among, rfl⟩ := listed
        exact congrArg (Prod.mk source.1) (ih source among)
      rw [kept]
      exact List.Pairwise.insertionSort_eq (sortBy_sorted _ _)

theorem same_sortedMembers (record : Record) : (obj (sortedMembers record)).Same (obj record) :=
  sortKeys_sortKeys (obj record)

/-- The order of the items does not change what is looked up. -/
theorem get_sortedMembers (record : Record) (name : String) :
    (Record.get (sortedMembers record) name) = (record.get name).sortKeys := by
  have found : (sortedMembers record).find? (fun member => member.1 = text name) =
      (record.find? fun member => member.1 = text name).map
        fun member => (member.1, member.2.sortKeys) := by
    rw [sortedMembers, find?_sortBy fun member => decide_eq_true_iff, sortKeysMembers_eq,
      List.find?_map]
    rfl
  rw [Record.get, Record.get, found]
  cases record.find? fun member => member.1 = text name with
  | none => rfl
  | some member => rfl

theorem contains_sortedMembers (record : Record) (name : String) :
    Record.contains (sortedMembers record) name = record.contains name := by
  rw [Record.contains, sortedMembers, (sortBy_perm _ _).any_eq, sortKeysMembers_eq, List.any_map]
  rfl

theorem mem_keys_sortedMembers {record : Record} {key : Text} :
    (∃ member ∈ sortedMembers record, member.1 = key) ↔ ∃ member ∈ record, member.1 = key := by
  simp only [sortedMembers, mem_sortBy, sortKeysMembers_eq, List.mem_map]
  constructor
  · rintro ⟨_, ⟨member, listed, rfl⟩, same⟩
    exact ⟨member, listed, same⟩
  · rintro ⟨member, listed, same⟩
    exact ⟨_, ⟨member, listed, rfl⟩, same⟩

/-! ## What a printed value shows -/

/-- A printed code point belongs to the JSON syntax or to a string of the value; a control
character is neither. -/
def Shown (mentioned : Prop) (c : CodePoint) : Prop :=
  0x20 ≤ c.val ∧ (c.val < 0x7f ∨ mentioned)

variable {c : CodePoint} {mentioned wider : Prop}

theorem Shown.imp (wide : mentioned → wider) (shown : Shown mentioned c) : Shown wider c :=
  ⟨shown.1, shown.2.imp id wide⟩

theorem shown_text {s : String} (printable : ∀ c ∈ s.toList, 0x20 ≤ c.toNat ∧ c.toNat < 0x7f)
    (member : c ∈ text s) : Shown mentioned c := by
  obtain ⟨char, inside, rfl⟩ := List.mem_map.mp member
  exact ⟨(printable char inside).1, Or.inl (printable char inside).2⟩

/-- A character of printable ASCII. -/
def isPrintable (char : Char) : Bool :=
  decide (0x20 ≤ char.toNat) && decide (char.toNat < 0x7f)

theorem printable_of_all {s : String} (plain : s.toList.all isPrintable = true) :
    ∀ c ∈ s.toList, 0x20 ≤ c.toNat ∧ c.toNat < 0x7f := by
  intro c member
  have checked := List.all_eq_true.mp plain c member
  simpa only [isPrintable, Bool.and_eq_true, decide_eq_true_eq] using checked

theorem shown_literal {s : String} (plain : s.toList.all isPrintable = true)
    (member : c ∈ text s) : Shown mentioned c :=
  shown_text (printable_of_all plain) member

theorem shown_control {d : CodePoint} (low : d.val < 0x20) (member : c ∈ text (control d)) :
    Shown mentioned c := by
  have plain : ∀ value : Fin 0x20,
      (control ⟨value.val, Nat.lt_trans value.isLt (by decide)⟩).toList.all isPrintable = true := by
    decide +kernel
  exact shown_literal (plain ⟨d.val, low⟩) member

/-- A quoted string shows its own characters, and what JSON puts around them. -/
theorem shown_quote {s : Text} (member : c ∈ quote s) : Shown (c ∈ s) c := by
  rw [quote, List.mem_append, List.mem_append] at member
  rcases member with (opening | inner) | closing
  · exact shown_literal rfl opening
  · obtain ⟨d, inside, escaped⟩ := List.mem_flatMap.mp inner
    unfold escape at escaped
    split at escaped
    · exact shown_literal rfl escaped
    · split at escaped
      · exact shown_literal rfl escaped
      · split at escaped
        · next low => exact shown_control low escaped
        · next high =>
            rw [List.mem_singleton.mp escaped]
            exact ⟨Nat.le_of_not_lt high, Or.inr inside⟩
  · exact shown_literal rfl closing

theorem shown_toString {value : Int} (member : c ∈ text (toString value)) : Shown mentioned c := by
  refine shown_text (fun char inside => ?_) member
  rcases mem_toList_toString inside with rfl | digit
  · decide
  · obtain ⟨-, low, high⟩ := toNat_ofNat_of_isDigit digit
    omega

/-- A printed value shows the characters of its strings, and those of the JSON syntax. -/
theorem shown_compact {format : NumeralFormat} {value : Json} (member : c ∈ value.compact format) :
    Shown (value.Mentions c) c := by
  induction value using induct with
  | null => exact shown_literal rfl member
  | bool value =>
      cases value
      · exact shown_literal rfl member
      · exact shown_literal rfl member
  | int value => exact shown_toString member
  | float value => exact shown_text (format.printable value) member
  | str value =>
      exact (shown_quote member).imp fun inside => ⟨value, List.mem_singleton_self value, inside⟩
  | arr items ih =>
      rw [compact, compactItems_eq, List.mem_append, List.mem_append] at member
      rcases member with (opening | inner) | closing
      · exact shown_literal rfl opening
      · rcases mem_intercalate inner with between | ⟨_, among, inside⟩
        · exact shown_literal rfl between
        · obtain ⟨item, listed, rfl⟩ := List.mem_map.mp among
          exact (ih item listed inside).imp fun found => mentions_arr.mpr ⟨item, listed, found⟩
      · exact shown_literal rfl closing
  | obj members ih =>
      rw [compact, compactMembers_eq, List.mem_append, List.mem_append] at member
      rcases member with (opening | inner) | closing
      · exact shown_literal rfl opening
      · rcases mem_intercalate inner with between | ⟨_, among, inside⟩
        · exact shown_literal rfl between
        · obtain ⟨entry, listed, rfl⟩ := List.mem_map.mp among
          rw [List.mem_append, List.mem_append] at inside
          rcases inside with (quoted | colon) | printed
          · exact (shown_quote quoted).imp fun found =>
              mentions_obj.mpr ⟨entry, listed, Or.inl found⟩
          · exact shown_literal rfl colon
          · exact (ih entry listed printed).imp fun found =>
              mentions_obj.mpr ⟨entry, listed, Or.inr found⟩
      · exact shown_literal rfl closing

theorem mem_quote {s : Text} (high : 0x7f ≤ c.val) (inside : c ∈ s) : c ∈ quote s := by
  have plain : escape c = [c] := by
    rw [escape, if_neg, if_neg, if_neg (by omega)]
    · rintro rfl
      exact absurd high (by decide)
    · rintro rfl
      exact absurd high (by decide)
  refine List.mem_append_left _ (List.mem_append_right _ (List.mem_flatMap.mpr ⟨c, inside, ?_⟩))
  rw [plain]
  exact List.mem_singleton_self c

/-- Above ASCII nothing is escaped: what a string mentions is printed. -/
theorem mem_compact {format : NumeralFormat} {value : Json} (high : 0x7f ≤ c.val)
    (mentioned : value.Mentions c) : c ∈ value.compact format := by
  induction value using induct with
  | null => obtain ⟨_, none, -⟩ := mentioned; cases none
  | bool value => obtain ⟨_, none, -⟩ := mentioned; cases none
  | int value => obtain ⟨_, none, -⟩ := mentioned; cases none
  | float value => obtain ⟨_, none, -⟩ := mentioned; cases none
  | str value =>
      obtain ⟨s, found, inside⟩ := mentioned
      rw [compact, ← List.mem_singleton.mp found]
      exact mem_quote high inside
  | arr items ih =>
      obtain ⟨item, among, mentioned⟩ := mentions_arr.mp mentioned
      rw [compact, compactItems_eq]
      exact List.mem_append_left _ (List.mem_append_right _
        (mem_intercalate_of_mem (List.mem_map_of_mem among) (ih item among mentioned)))
  | obj members ih =>
      obtain ⟨entry, among, mentioned⟩ := mentions_obj.mp mentioned
      rw [compact, compactMembers_eq]
      refine List.mem_append_left _ (List.mem_append_right _
        (mem_intercalate_of_mem (List.mem_map_of_mem among) ?_))
      rcases mentioned with key | value
      · exact List.mem_append_left _ (List.mem_append_left _ (mem_quote high key))
      · exact List.mem_append_right _ (ih entry among value)

/-! ## Equality -/

/-- A value that equals itself: no `NaN` in it, and no key twice in a dict. -/
inductive Comparable : Json → Prop where
  | null : Comparable .null
  | bool {value : Bool} : Comparable (.bool value)
  | int {value : Int} : Comparable (.int value)
  | float {value : FloatNumeral} (finite : value.value.isSome = true) : Comparable (.float value)
  | str {value : Text} : Comparable (.str value)
  | arr {items : List Json} (each : ∀ item ∈ items, Comparable item) : Comparable (.arr items)
  | obj {members : Record} (distinct : (members.map Prod.fst).Nodup)
      (each : ∀ member ∈ members, Comparable member.2) : Comparable (.obj members)

theorem equalItems_of_forall₂ {lefts rights : List Json}
    (each : List.Forall₂ (fun left right => left.equal right = true) lefts rights) :
    equalItems lefts rights = true := by
  induction each with
  | nil => rw [equalItems]
  | cons here _ ih => rw [equalItems, here, ih, Bool.and_true]

theorem equalMembers_of_forall {members others : Record}
    (each : ∀ member ∈ members, equalMember member others = true) :
    equalMembers members others = true := by
  induction members with
  | nil => rw [equalMembers]
  | cons member members ih =>
      rw [List.forall_mem_cons] at each
      rw [equalMembers, each.1, ih each.2, Bool.and_true]

theorem equalMember_of_mem {key : Text} {value other : Json} {others : Record}
    (distinct : (others.map Prod.fst).Nodup) (member : (key, other) ∈ others)
    (same : value.equal other = true) : equalMember (key, value) others = true := by
  have found : others.find? (fun entry => entry.1 = key) = some (key, other) := by
    induction others with
    | nil => cases member
    | cons entry others ih =>
        rw [List.map_cons, List.nodup_cons] at distinct
        rcases List.mem_cons.mp member with rfl | later
        · exact List.find?_cons_of_pos (decide_eq_true rfl)
        · rw [List.find?_cons_of_neg, ih distinct.2 later]
          refine fun equal => distinct.1 (of_decide_eq_true equal ▸ ?_)
          exact List.mem_map_of_mem later
  rw [equalMember, found]
  exact same

/-- Values that differ in the order of their dicts alone are equal. -/
theorem equal_of_same {left right : Json} (comparable : left.Comparable) (same : left.Same right) :
    left.equal right = true := by
  unfold Same at same
  induction comparable generalizing right with
  | null =>
      cases right <;> simp [sortKeys, equal] at same ⊢
  | bool =>
      cases right <;> simp [sortKeys, equal, number?] at same ⊢
      rw [same]
  | int =>
      cases right <;> simp [sortKeys, equal, number?] at same ⊢
      rw [same]
  | float finite =>
      cases right <;> simp [sortKeys, equal, finite] at same ⊢
      rw [same]
  | str =>
      cases right <;> simp [sortKeys, equal] at same ⊢
      exact same
  | @arr items each ih =>
      cases right with
      | arr others =>
          rw [sortKeys, sortKeys, arr.injEq, sortKeysItems_eq, sortKeysItems_eq] at same
          rw [equal]
          have pairs : List.Forall₂ Eq (items.map sortKeys) (others.map sortKeys) :=
            same ▸ List.forall₂_refl _
          rw [List.forall₂_map_left_iff, List.forall₂_map_right_iff] at pairs
          refine equalItems_of_forall₂ ?_
          exact ((List.forall₂_and_left _ _).mpr ⟨fun item => ih item, pairs⟩).imp
            fun _ _ both => both.1 both.2
      | _ => simp [sortKeys] at same
  | @obj members distinct each ih =>
      cases right with
      | obj others =>
          rw [sortKeys, sortKeys, obj.injEq, sortKeysMembers_eq, sortKeysMembers_eq] at same
          have perm : (members.map fun member => (member.1, member.2.sortKeys)).Perm
              (others.map fun member => (member.1, member.2.sortKeys)) :=
            (sortBy_perm Prod.fst _).symm.trans (same ▸ sortBy_perm Prod.fst _)
          have keys : (others.map Prod.fst).Perm (members.map Prod.fst) := by
            have mapped := (perm.map Prod.fst).symm
            rwa [List.map_map, List.map_map] at mapped
          rw [equal, Bool.and_eq_true, decide_eq_true_iff]
          refine ⟨by simpa using perm.length_eq, equalMembers_of_forall fun member inside => ?_⟩
          obtain ⟨⟨key, other⟩, listed, agrees⟩ :=
            List.mem_map.mp (perm.mem_iff.mp (List.mem_map_of_mem inside))
          obtain ⟨rfl, sorted⟩ := Prod.mk.inj agrees
          exact equalMember_of_mem (keys.nodup_iff.mpr distinct) listed
            (ih member inside sorted.symm)
      | _ => simp [sortKeys] at same

theorem identicalItems_self {items : List Json}
    (each : ∀ item ∈ items, item.identical item = true) : identicalItems items items = true := by
  induction items with
  | nil => rw [identicalItems]
  | cons item items ih =>
      rw [List.forall_mem_cons] at each
      rw [identicalItems, each.1, ih each.2, Bool.and_true]

theorem identicalMembers_self {members : Record}
    (each : ∀ member ∈ members, member.2.identical member.2 = true) :
    identicalMembers members members = true := by
  induction members with
  | nil => rw [identicalMembers]
  | cons member members ih =>
      rw [List.forall_mem_cons] at each
      obtain ⟨key, value⟩ := member
      rw [identicalMembers, identicalMember, each.1, ih each.2, decide_eq_true rfl, Bool.and_self,
        Bool.and_self]

/-- Every value is identical to itself, `NaN` too. -/
theorem identical_self (value : Json) : value.identical value = true := by
  induction value using induct with
  | null => rw [identical]
  | bool value => rw [identical, decide_eq_true rfl]
  | int value => rw [identical, decide_eq_true rfl]
  | float value => rw [identical, decide_eq_true rfl]
  | str value => rw [identical, decide_eq_true rfl]
  | arr items ih =>
      rw [identical]
      exact identicalItems_self ih
  | obj members ih =>
      rw [identical]
      exact identicalMembers_self ih

end Json

end LlmLab.Benchmarks
