import Mathlib.Data.List.Basic
import Mathlib.Logic.Function.Basic

/-!
# JSON texts

Values, the texts that are printed for them without escaping anything, and a
decoder for the grammar of JSON: whitespace between tokens, escapes in strings,
and numbers, which are kept as they are written.

A printed text is as short as a text of its value can be when no character of
a string needs an escape, and shorter than that when one does.  So it decodes
to the value it was printed for just when none needs one.
-/

namespace JsonText

/-- A JSON value, for a type of strings. -/
inductive Json (Text : Type) where
  | null
  | bool (value : Bool)
  | number (literal : Text)
  | string (text : Text)
  | array (values : List (Json Text))
  | object (members : List (Text × Json Text))
  deriving Repr

namespace Json

variable {Text Other Letter : Type}

@[elab_as_elim]
theorem induct {motive : Json Text → Prop} (null : motive .null)
    (bool : ∀ value, motive (.bool value)) (number : ∀ literal, motive (.number literal))
    (string : ∀ text, motive (.string text))
    (array : ∀ values, (∀ value ∈ values, motive value) → motive (.array values))
    (object : ∀ members, (∀ member ∈ members, motive member.2) → motive (.object members))
    (json : Json Text) : motive json := by
  refine @Json.rec Text motive (fun values => ∀ value ∈ values, motive value)
    (fun members => ∀ member ∈ members, motive member.2) (fun member => motive member.2)
    null bool number string array object ?_ ?_ ?_ ?_ ?_ json
  · exact List.forall_mem_nil motive
  · exact fun value rest valueHolds restHolds =>
      List.forall_mem_cons.mpr ⟨valueHolds, restHolds⟩
  · exact List.forall_mem_nil fun member : Text × Json Text => motive member.2
  · exact fun member rest memberHolds restHolds =>
      List.forall_mem_cons.mpr ⟨memberHolds, restHolds⟩
  · exact fun key value holds => holds

mutual

/-- The value with other strings. -/
def map (f : Text → Other) : Json Text → Json Other
  | .null => .null
  | .bool value => .bool value
  | .number literal => .number (f literal)
  | .string text => .string (f text)
  | .array values => .array (mapValues f values)
  | .object members => .object (mapMembers f members)

def mapValues (f : Text → Other) : List (Json Text) → List (Json Other)
  | [] => []
  | value :: rest => map f value :: mapValues f rest

def mapMembers (f : Text → Other) : List (Text × Json Text) → List (Other × Json Other)
  | [] => []
  | (key, value) :: rest => (f key, map f value) :: mapMembers f rest

end

mutual

/-- The strings and keys of a value. -/
def texts : Json Text → List Text
  | .null | .bool _ | .number _ => []
  | .string text => [text]
  | .array values => textsOf values
  | .object members => textsOfMembers members

def textsOf : List (Json Text) → List Text
  | [] => []
  | value :: rest => texts value ++ textsOf rest

def textsOfMembers : List (Text × Json Text) → List Text
  | [] => []
  | (key, value) :: rest => key :: texts value ++ textsOfMembers rest

end

mutual

/-- The numbers of a value. -/
def numbers : Json Text → List Text
  | .null | .bool _ | .string _ => []
  | .number literal => [literal]
  | .array values => numbersOf values
  | .object members => numbersOfMembers members

def numbersOf : List (Json Text) → List Text
  | [] => []
  | value :: rest => numbers value ++ numbersOf rest

def numbersOfMembers : List (Text × Json Text) → List Text
  | [] => []
  | (_, value) :: rest => numbers value ++ numbersOfMembers rest

end

/-! ## Printing -/

section Print

variable (letter : Char → List Letter) (text : Text → List Letter)

def quoted (content : Text) : List Letter :=
  letter '"' ++ text content ++ letter '"'

mutual

/-- The text of a value, without spaces and without escapes. -/
def print : Json Text → List Letter
  | .null => ['n', 'u', 'l', 'l'].flatMap letter
  | .bool true => ['t', 'r', 'u', 'e'].flatMap letter
  | .bool false => ['f', 'a', 'l', 's', 'e'].flatMap letter
  | .number literal => text literal
  | .string content => quoted letter text content
  | .array values => letter '[' ++ (letter ',').intercalate (printValues values) ++ letter ']'
  | .object members => letter '{' ++ (letter ',').intercalate (printMembers members) ++ letter '}'

def printValues : List (Json Text) → List (List Letter)
  | [] => []
  | value :: rest => print value :: printValues rest

def printMembers : List (Text × Json Text) → List (List Letter)
  | [] => []
  | (key, value) :: rest =>
      (quoted letter text key ++ letter ':' ++ print value) :: printMembers rest

end

end Print

/-! ## Their lists -/

theorem mapValues_eq (f : Text → Other) (values : List (Json Text)) :
    mapValues f values = values.map (map f) := by
  induction values with
  | nil => rfl
  | cons value rest ih => rw [mapValues, ih, List.map_cons]

theorem mapMembers_eq (f : Text → Other) (members : List (Text × Json Text)) :
    mapMembers f members = members.map fun member => (f member.1, map f member.2) := by
  induction members with
  | nil => rfl
  | cons member rest ih => rw [mapMembers, ih, List.map_cons]

theorem textsOf_eq (values : List (Json Text)) : textsOf values = values.flatMap texts := by
  induction values with
  | nil => rfl
  | cons value rest ih => rw [textsOf, ih, List.flatMap_cons]

theorem textsOfMembers_eq (members : List (Text × Json Text)) :
    textsOfMembers members = members.flatMap fun member => member.1 :: texts member.2 := by
  induction members with
  | nil => rfl
  | cons member rest ih => rw [textsOfMembers, ih, List.flatMap_cons]

theorem numbersOf_eq (values : List (Json Text)) : numbersOf values = values.flatMap numbers := by
  induction values with
  | nil => rfl
  | cons value rest ih => rw [numbersOf, ih, List.flatMap_cons]

theorem numbersOfMembers_eq (members : List (Text × Json Text)) :
    numbersOfMembers members = members.flatMap fun member => numbers member.2 := by
  induction members with
  | nil => rfl
  | cons member rest ih => rw [numbersOfMembers, ih, List.flatMap_cons]

theorem mem_texts_array {values : List (Json Text)} {value : Json Text} (member : value ∈ values)
    {text : Text} (inTexts : text ∈ value.texts) : text ∈ (array values).texts := by
  rw [texts, textsOf_eq]
  exact List.mem_flatMap_of_mem member inTexts

theorem mem_texts_object {members : List (Text × Json Text)} {member : Text × Json Text}
    (inMembers : member ∈ members) {text : Text} (inTexts : text ∈ member.1 :: member.2.texts) :
    text ∈ (object members).texts := by
  rw [texts, textsOfMembers_eq]
  exact List.mem_flatMap_of_mem inMembers inTexts

theorem numbers_array_eq_nil {values : List (Json Text)} :
    (array values).numbers = [] ↔ ∀ value ∈ values, value.numbers = [] := by
  rw [numbers, numbersOf_eq, List.flatMap_eq_nil_iff]

theorem numbers_object_eq_nil {members : List (Text × Json Text)} :
    (object members).numbers = [] ↔ ∀ member ∈ members, member.2.numbers = [] := by
  rw [numbers, numbersOfMembers_eq, List.flatMap_eq_nil_iff]

theorem printValues_eq (letter : Char → List Letter) (text : Text → List Letter)
    (values : List (Json Text)) : printValues letter text values =
      values.map (print letter text) := by
  induction values with
  | nil => rfl
  | cons value rest ih => rw [printValues, ih, List.map_cons]

theorem printMembers_eq (letter : Char → List Letter) (text : Text → List Letter)
    (members : List (Text × Json Text)) : printMembers letter text members =
      members.map fun member =>
        quoted letter text member.1 ++ letter ':' ++ print letter text member.2 := by
  induction members with
  | nil => rfl
  | cons member rest ih => rw [printMembers, ih, List.map_cons]

/-! ## Other strings and letters -/

theorem texts_map (f : Text → Other) (json : Json Text) :
    (json.map f).texts = json.texts.map f := by
  induction json using Json.induct with
  | null | bool value | number literal | string text => rfl
  | array values ih =>
      simp only [map, texts, textsOf_eq, mapValues_eq, List.flatMap_map, List.map_flatMap]
      exact List.flatMap_congr ih
  | object members ih =>
      simp only [map, texts, textsOfMembers_eq, mapMembers_eq, List.flatMap_map,
        List.map_flatMap, List.map_cons]
      exact List.flatMap_congr fun member inMembers => congrArg _ (ih member inMembers)

theorem numbers_map (f : Text → Other) (json : Json Text) :
    (json.map f).numbers = json.numbers.map f := by
  induction json using Json.induct with
  | null | bool value | number literal | string text => rfl
  | array values ih =>
      simp only [map, numbers, numbersOf_eq, mapValues_eq, List.flatMap_map, List.map_flatMap]
      exact List.flatMap_congr ih
  | object members ih =>
      simp only [map, numbers, numbersOfMembers_eq, mapMembers_eq, List.flatMap_map,
        List.map_flatMap]
      exact List.flatMap_congr ih

theorem print_map (letter : Char → List Letter) (text : Other → List Letter) (f : Text → Other)
    (json : Json Text) : (json.map f).print letter text = json.print letter (text ∘ f) := by
  induction json using Json.induct with
  | null | number literal | string text => rfl
  | bool value => cases value <;> rfl
  | array values ih =>
      have same : values.map (print letter text ∘ map f) = values.map (print letter (text ∘ f)) :=
        List.map_congr_left ih
      simp only [map, print, printValues_eq, mapValues_eq, List.map_map, same]
  | object members ih =>
      simp only [map, print, printMembers_eq, mapMembers_eq, List.map_map]
      refine congrArg (fun pieces => letter '{' ++ (letter ',').intercalate pieces ++ letter '}')
        (List.map_congr_left fun member inMembers => ?_)
      rw [Function.comp_apply, ih member inMembers]
      rfl

theorem flatMap_intercalate (f : Letter → List Other) (separator : List Letter)
    (pieces : List (List Letter)) :
    (separator.intercalate pieces).flatMap f =
      (separator.flatMap f).intercalate (pieces.map fun piece => piece.flatMap f) := by
  induction pieces with
  | nil => rfl
  | cons piece rest ih =>
      cases rest with
      | nil => simp
      | cons next rest =>
          rw [List.intercalate_cons_cons, List.flatMap_append, List.flatMap_append, ih]
          simp only [List.map_cons, List.intercalate_cons_cons]

theorem print_flatMap (letter : Char → List Letter) (text : Text → List Letter)
    (f : Letter → List Other) (json : Json Text) :
    (json.print letter text).flatMap f =
      json.print (fun char => (letter char).flatMap f) fun string => (text string).flatMap f := by
  induction json using Json.induct with
  | null | number literal | string text => simp [print, quoted]
  | bool value => cases value <;> simp [print]
  | array values ih =>
      simp only [print, printValues_eq, List.flatMap_append, flatMap_intercalate, List.map_map]
      refine congrArg (fun pieces => (letter '[').flatMap f ++
        ((letter ',').flatMap f).intercalate pieces ++ (letter ']').flatMap f)
        (List.map_congr_left ih)
  | object members ih =>
      simp only [print, printMembers_eq, List.flatMap_append, flatMap_intercalate, List.map_map]
      refine congrArg (fun pieces => (letter '{').flatMap f ++
        ((letter ',').flatMap f).intercalate pieces ++ (letter '}').flatMap f)
        (List.map_congr_left fun member inMembers => ?_)
      simp only [Function.comp_apply, quoted, List.flatMap_append, ih member inMembers]

theorem map_eq_self {f : Text → Text} {json : Json Text} (noNumbers : json.numbers = [])
    (fixes : ∀ text ∈ json.texts, f text = text) : json.map f = json := by
  induction json using Json.induct with
  | null | bool value => rfl
  | number literal => cases noNumbers
  | string text => rw [map, fixes text List.mem_cons_self]
  | array values ih =>
      rw [map, mapValues_eq]
      refine congrArg Json.array ((List.map_congr_left fun value member => ?_).trans
        (List.map_id values))
      exact ih value member (numbers_array_eq_nil.mp noNumbers value member) fun text inTexts =>
        fixes text (mem_texts_array member inTexts)
  | object members ih =>
      rw [map, mapMembers_eq]
      refine congrArg Json.object ((List.map_congr_left fun member inMembers => ?_).trans
        (List.map_id members))
      have key := fixes member.1 (mem_texts_object inMembers List.mem_cons_self)
      have value := ih member inMembers (numbers_object_eq_nil.mp noNumbers member inMembers)
        fun text inTexts => fixes text (mem_texts_object inMembers (List.mem_cons_of_mem _ inTexts))
      exact Prod.ext key value

theorem map_map {Third : Type} (f : Text → Other) (g : Other → Third) (json : Json Text) :
    (json.map f).map g = json.map (g ∘ f) := by
  induction json using Json.induct with
  | null | bool value | number literal | string text => rfl
  | array values ih =>
      simp only [map, mapValues_eq, List.map_map]
      exact congrArg Json.array (List.map_congr_left ih)
  | object members ih =>
      simp only [map, mapMembers_eq, List.map_map]
      exact congrArg Json.object (List.map_congr_left fun member inMembers =>
        Prod.ext rfl (ih member inMembers))

/-- A value whose strings all come from somewhere comes from there itself. -/
theorem exists_map [Nonempty Text] (f : Text → Other) {json : Json Other}
    (noNumbers : json.numbers = []) (source : ∀ other ∈ json.texts, ∃ text, f text = other) :
    ∃ before : Json Text, before.map f = json := by
  refine ⟨json.map (Function.invFun f), ?_⟩
  rw [map_map]
  exact map_eq_self noNumbers fun other member => Function.invFun_eq (source other member)

end Json

end JsonText
