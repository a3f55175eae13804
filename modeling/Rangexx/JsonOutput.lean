import Rangexx.JsonPrinted
import Rangexx.JsonVisitor

/-!
# What the compact output decodes to

`JSONVisitor` escapes nothing.  Its compact output is the text printed for the
structure, so a decoder returns the structure just when no string and no key
holds a character that JSON wants escaped.
-/

namespace Rangexx

open JsonText

/-! ## Texts in UTF-8 -/

theorem toByteArray_utf8 (text : List Char) : (utf8 text).toByteArray = text.utf8Encode :=
  rfl

theorem utf8_injective : Function.Injective utf8 := by
  intro first second same
  have encoded : first.utf8Encode = second.utf8Encode := congrArg List.toByteArray same
  have decoded := congrArg ByteArray.utf8Decode? encoded
  rw [List.utf8Decode?_utf8Encode, List.utf8Decode?_utf8Encode, Option.some.injEq] at decoded
  exact congrArg Array.toList decoded

/-- A decoder for bytes, which have to be a text in UTF-8. -/
def decodeBytes (output : Bytes) : Option (Json (List Char)) :=
  output.toByteArray.utf8Decode?.bind fun text => decode text.toList

theorem decodeBytes_utf8 (text : List Char) : decodeBytes (utf8 text) = decode text := by
  rw [decodeBytes, toByteArray_utf8, List.utf8Decode?_utf8Encode]
  rfl

/-! ## The structure as a value -/

namespace RangeStruct

variable {Number : Type} (lexicalCast : Number → Bytes)

mutual

/-- The value a structure stands for; tuples are arrays. -/
def toJson : RangeStruct Number → Json Bytes
  | .rangeObject values => .object (membersToJson values)
  | .rangeArray values => .array (valuesToJson values)
  | .rangeTuple values => .array (valuesToJson values)
  | .rangeNumber value => .number (lexicalCast value)
  | .rangeString value => .string value
  | .rangeTrue => .bool true
  | .rangeFalse => .bool false
  | .rangeNull => .null

def valuesToJson : List (RangeStruct Number) → List (Json Bytes)
  | [] => []
  | value :: rest => toJson value :: valuesToJson rest

def membersToJson : List (Bytes × RangeStruct Number) → List (Bytes × Json Bytes)
  | [] => []
  | (key, value) :: rest => (key, toJson value) :: membersToJson rest

end

/-- The structure is built from objects, arrays, tuples, strings, booleans and
null. -/
inductive NumberFree : RangeStruct Number → Prop
  | rangeObject {values : List (Bytes × RangeStruct Number)}
      (parts : ∀ member ∈ values, NumberFree member.2) : NumberFree (.rangeObject values)
  | rangeArray {values : List (RangeStruct Number)} (parts : ∀ value ∈ values, NumberFree value) :
      NumberFree (.rangeArray values)
  | rangeTuple {values : List (RangeStruct Number)} (parts : ∀ value ∈ values, NumberFree value) :
      NumberFree (.rangeTuple values)
  | rangeString (value : Bytes) : NumberFree (.rangeString value)
  | rangeTrue : NumberFree .rangeTrue
  | rangeFalse : NumberFree .rangeFalse
  | rangeNull : NumberFree .rangeNull

theorem valuesToJson_eq (values : List (RangeStruct Number)) :
    valuesToJson lexicalCast values = values.map (toJson lexicalCast) := by
  induction values with
  | nil => rfl
  | cons value rest ih => rw [valuesToJson, ih, List.map_cons]

theorem membersToJson_eq (members : List (Bytes × RangeStruct Number)) :
    membersToJson lexicalCast members =
      members.map fun member => (member.1, toJson lexicalCast member.2) := by
  induction members with
  | nil => rfl
  | cons member rest ih => rw [membersToJson, ih, List.map_cons]

theorem NumberFree.numbers_toJson {s : RangeStruct Number} (built : s.NumberFree) :
    (s.toJson lexicalCast).numbers = [] := by
  induction built with
  | rangeObject parts ih =>
      rw [toJson, Json.numbers_object_eq_nil, membersToJson_eq, List.forall_mem_map]
      exact ih
  | rangeArray parts ih | rangeTuple parts ih =>
      rw [toJson, Json.numbers_array_eq_nil, valuesToJson_eq, List.forall_mem_map]
      exact ih
  | rangeString | rangeTrue | rangeFalse | rangeNull => rfl

end RangeStruct

/-! ## Compact output -/

namespace JSONVisitor

variable {Number : Type} {lexicalCast : Number → Bytes}

theorem visitValues_eq (visitor : JSONVisitor) (values : List (RangeStruct Number)) :
    visitor.visitValues lexicalCast values = values.map (visitor.visit lexicalCast) := by
  induction values with
  | nil => rfl
  | cons value rest ih => rw [visitValues, ih, List.map_cons]

theorem visitMembers_eq (visitor : JSONVisitor) (members : List (Bytes × RangeStruct Number)) :
    visitor.visitMembers lexicalCast members =
      members.map fun member => (member.1, visitor.visit lexicalCast member.2) := by
  induction members with
  | nil => rfl
  | cons member rest ih => rw [visitMembers, ih, List.map_cons]

theorem bracketed_compact {visitor : JSONVisitor} (compact : visitor.pretty = false)
    (opening closing : Char) (pieces : List Bytes) :
    visitor.bracketed opening closing pieces =
      letter opening ++ (letter ',').intercalate pieces ++ letter closing := by
  by_cases none : pieces = []
  · subst none
    simp [bracketed, compact, lineEnd, indentation]
  · simp [bracketed, compact, lineEnd, indentation, separator, none]

/-- The compact output is the text printed for the structure. -/
theorem visit_compact {visitor : JSONVisitor} (compact : visitor.pretty = false)
    {s : RangeStruct Number} (built : s.NumberFree) :
    visitor.visit lexicalCast s = (s.toJson lexicalCast).print letter id := by
  induction built generalizing visitor with
  | @rangeObject values parts ih =>
      rw [visit, makeObject_eq, bracketed_compact compact, RangeStruct.toJson, Json.print,
        visitMembers_eq, RangeStruct.membersToJson_eq, Json.printMembers_eq, List.map_map,
        List.map_map]
      refine congrArg (fun pieces => letter '{' ++ (letter ',').intercalate pieces ++ letter '}')
        (List.map_congr_left fun member inMembers => ?_)
      have value := @ih member inMembers visitor.inner compact
      simp [memberPiece, indentation, compact, Json.quoted, value]
  | @rangeArray values parts ih | @rangeTuple values parts ih =>
      rw [visit, makeArray_eq, bracketed_compact compact, RangeStruct.toJson, Json.print,
        visitValues_eq, RangeStruct.valuesToJson_eq, Json.printValues_eq, List.map_map,
        List.map_map]
      refine congrArg (fun pieces => letter '[' ++ (letter ',').intercalate pieces ++ letter ']')
        (List.map_congr_left fun value inValues => ?_)
      have value := @ih value inValues visitor.inner compact
      simp [indentation, compact, value]
  | rangeString | rangeTrue | rangeFalse | rangeNull => rfl

end JSONVisitor

/-- A string that can stand in JSON as it is: a text in UTF-8 without quotes,
backslashes and control characters. -/
def PlainText (value : Bytes) : Prop :=
  ∃ text, value = utf8 text ∧ ∀ char ∈ text, ¬ Special char

/-- A decoder returns the structure: its strings are the texts of those in the
structure. -/
def DecodesTo (output : Bytes) (json : Json Bytes) : Prop :=
  ∃ decoded, decodeBytes output = some decoded ∧ decoded.map utf8 = json

/-- The text printed for a value whose strings are in UTF-8. -/
theorem print_map_utf8 (json : Json (List Char)) :
    (json.map utf8).print letter id = utf8 json.plain := by
  have letters : (fun char => [char].flatMap letter) = letter := by
    funext char
    simp
  rw [Json.print_map, Json.plain, utf8, Json.print_flatMap, letters]
  rfl

theorem decodesTo_print_iff {json : Json Bytes} (noNumbers : json.numbers = []) :
    DecodesTo (json.print letter id) json ↔ ∀ value ∈ json.texts, PlainText value := by
  constructor
  · rintro ⟨decoded, returned, rfl⟩
    rw [Json.numbers_map, List.map_eq_nil_iff] at noNumbers
    rw [print_map_utf8, decodeBytes_utf8] at returned
    have plain := (decode_plain_iff noNumbers).mp returned
    intro value member
    rw [Json.texts_map] at member
    obtain ⟨text, inTexts, rfl⟩ := List.mem_map.mp member
    exact ⟨text, rfl, plain text inTexts⟩
  · intro plain
    obtain ⟨decoded, rfl⟩ := Json.exists_map utf8 noNumbers fun value member =>
      (plain value member).imp fun text isText => isText.1.symm
    rw [Json.numbers_map, List.map_eq_nil_iff] at noNumbers
    refine ⟨decoded, ?_, rfl⟩
    rw [print_map_utf8, decodeBytes_utf8, decode_plain_iff noNumbers]
    intro text inTexts
    rw [Json.texts_map] at plain
    obtain ⟨other, same, isPlain⟩ := plain (utf8 text) (List.mem_map_of_mem inTexts)
    rw [utf8_injective same]
    exact isPlain

/-- The compact output decodes to the structure just when every string and key
can stand in JSON as it is. -/
theorem compact_decodes_iff {Number : Type} (lexicalCast : Number → Bytes)
    {visitor : JSONVisitor} (compact : visitor.pretty = false) {s : RangeStruct Number}
    (built : s.NumberFree) :
    DecodesTo (visitor.visit lexicalCast s) (s.toJson lexicalCast) ↔
      ∀ value ∈ (s.toJson lexicalCast).texts, PlainText value := by
  rw [JSONVisitor.visit_compact compact built]
  exact decodesTo_print_iff (built.numbers_toJson lexicalCast)

theorem compact_decodes_iff_tuple :
    DecodesTo
      (JSONVisitor.default.visit (fun _ : Nat => [])
        (.rangeTuple [.rangeString (utf8 ['o', 'k']), .rangeObject [], .rangeTrue]))
      (.array [.string (utf8 ['o', 'k']), .object [], .bool true]) := by
  refine (compact_decodes_iff (fun _ : Nat => []) rfl (.rangeTuple ?_)).mpr ?_
  · simp only [List.forall_mem_cons]
    exact ⟨.rangeString _, .rangeObject (List.forall_mem_nil _), .rangeTrue,
      List.forall_mem_nil _⟩
  · intro value member
    obtain rfl := List.mem_singleton.mp member
    exact ⟨['o', 'k'], rfl, List.forall_mem_cons.mpr
      ⟨by decide, List.forall_mem_cons.mpr ⟨by decide, List.forall_mem_nil _⟩⟩⟩

/-- What is written for a string with a quote in it is no JSON. -/
theorem quote_not_decoded :
    (RangeStruct.rangeString (utf8 ['a', '"', 'b']) : RangeStruct Nat).NumberFree ∧
      ¬ DecodesTo
        (JSONVisitor.default.visit (fun _ : Nat => []) (.rangeString (utf8 ['a', '"', 'b'])))
        (.string (utf8 ['a', '"', 'b'])) := by
  have output : JSONVisitor.default.visit (fun _ : Nat => [])
      (.rangeString (utf8 ['a', '"', 'b'])) = utf8 ['"', 'a', '"', 'b', '"'] := rfl
  refine ⟨.rangeString _, ?_⟩
  rintro ⟨decoded, returned, _⟩
  rw [output, decodeBytes_utf8] at returned
  have none : decode ['"', 'a', '"', 'b', '"'] = none := rfl
  rw [none] at returned
  cases returned

end Rangexx
