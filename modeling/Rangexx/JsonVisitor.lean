import Rangexx.JsonText
import Rangexx.OverwritingStream

/-!
# Writing structures as JSON

`RangeStruct` and `JSONVisitor`.  A string is what `std::string` is, a list of
bytes.  The visitor writes into a string stream; behind the last element of an
array or object it goes back over the separator.
-/

namespace Rangexx

open OverwritingStream JsonText

/-- A `std::string`. -/
abbrev Bytes :=
  List UInt8

/-- The bytes of a character, which is one byte for those the source writes. -/
def letter (char : Char) : Bytes :=
  String.utf8EncodeChar char

/-- A text in UTF-8. -/
def utf8 (text : List Char) : Bytes :=
  text.flatMap letter

/-- `RangeStruct`, the variants in the order of the source, for a type of
floating-point numbers.  The keys of an object are in the order in which its
`unordered_map` is walked. -/
inductive RangeStruct (Number : Type) where
  | rangeObject (values : List (Bytes × RangeStruct Number))
  | rangeArray (values : List (RangeStruct Number))
  | rangeTuple (values : List (RangeStruct Number))
  | rangeNumber (value : Number)
  | rangeString (value : Bytes)
  | rangeTrue
  | rangeFalse
  | rangeNull
  deriving Repr

/-- `JSONVisitor`; its logger is left out. -/
structure JSONVisitor where
  pretty : Bool
  indent : UInt32
  curIndent : UInt32
  deriving DecidableEq, Repr

namespace JSONVisitor

/-- The visitor that is constructed without arguments. -/
def default : JSONVisitor where
  pretty := false
  indent := 4
  curIndent := 0

/-- `std::endl`. -/
def endl : Bytes :=
  letter '\n'

/-- `add_indent`. -/
def addIndent (s : Stream UInt8) (pretty : Bool) (curIndent : UInt32) : Stream UInt8 :=
  if pretty then (List.range curIndent.toNat).foldl (fun s _ => s.write (letter ' ')) s else s

/-- The visitor for the elements. -/
def inner (visitor : JSONVisitor) : JSONVisitor :=
  { visitor with
    curIndent := if visitor.pretty then visitor.curIndent + visitor.indent else 0 }

/-- `make_array`, given the texts of the elements. -/
def makeArray (visitor : JSONVisitor) (values : List Bytes) : Bytes :=
  let s := (Stream.atEnd []).write (letter '[')
  let s := if visitor.pretty then s.write endl else s
  let s := values.foldl (fun s value =>
    let s := addIndent s visitor.pretty visitor.curIndent
    let s := (s.write value).write (letter ',')
    if visitor.pretty then s.write endl else s) s
  let s :=
    if values.isEmpty then s
    else if visitor.pretty then (s.seekBack 2).write endl
    else s.seekBack 1
  let s := addIndent s visitor.pretty visitor.curIndent
  (s.write (letter ']')).text

/-- `operator()(const RangeObject &)`, given the texts of the values. -/
def makeObject (visitor : JSONVisitor) (values : List (Bytes × Bytes)) : Bytes :=
  let s := (Stream.atEnd []).write (letter '{')
  let pad := if visitor.pretty then letter ' ' else []
  let s := if visitor.pretty then s.write endl else s
  let s := values.foldl (fun s value =>
    let s := addIndent s visitor.pretty (visitor.curIndent + visitor.indent)
    let s := ((s.write (letter '"')).write value.1).write (letter '"' ++ letter ':')
    let s := ((s.write pad).write value.2).write (letter ',')
    if visitor.pretty then s.write endl else s) s
  let s :=
    if values.isEmpty then s
    else if visitor.pretty then (s.seekBack 2).write endl
    else s.seekBack 1
  let s := addIndent s visitor.pretty visitor.curIndent
  (s.write (letter '}')).text

variable {Number : Type} (lexicalCast : Number → Bytes)

mutual

/-- `apply_visitor`.  The texts of the elements do not depend on what has been
written, and are made first. -/
def visit (visitor : JSONVisitor) : RangeStruct Number → Bytes
  | .rangeObject values => visitor.makeObject (visitMembers visitor.inner values)
  | .rangeArray values => visitor.makeArray (visitValues visitor.inner values)
  | .rangeTuple values => visitor.makeArray (visitValues visitor.inner values)
  | .rangeNumber value => lexicalCast value
  | .rangeString value => letter '"' ++ value ++ letter '"'
  | .rangeTrue => utf8 ['t', 'r', 'u', 'e']
  | .rangeFalse => utf8 ['f', 'a', 'l', 's', 'e']
  | .rangeNull => utf8 ['n', 'u', 'l', 'l']

def visitValues (visitor : JSONVisitor) : List (RangeStruct Number) → List Bytes
  | [] => []
  | value :: rest => visit visitor value :: visitValues visitor rest

def visitMembers (visitor : JSONVisitor) :
    List (Bytes × RangeStruct Number) → List (Bytes × Bytes)
  | [] => []
  | (key, value) :: rest => (key, visit visitor value) :: visitMembers visitor rest

end

/-! ## What the stream holds -/

/-- What `add_indent` writes. -/
def indentation (pretty : Bool) (curIndent : UInt32) : Bytes :=
  if pretty then List.replicate curIndent.toNat 32 else []

/-- The end of a line in pretty output. -/
def lineEnd (pretty : Bool) : Bytes :=
  if pretty then endl else []

theorem addIndent_eq {s : Stream UInt8} (within : s.put ≤ s.text.length) (pretty : Bool)
    (curIndent : UInt32) :
    addIndent s pretty curIndent = s.write (indentation pretty curIndent) := by
  cases pretty with
  | false => exact (Stream.write_nil s).symm
  | true =>
      have spaces (count : Nat) : ((List.range count).flatMap fun _ => letter ' ') =
          List.replicate count 32 := by
        induction count with
        | zero => rfl
        | succ count ih =>
            rw [List.range_succ, List.flatMap_append, ih, List.replicate_succ']
            rfl
      exact (Stream.foldl_write within _ _).trans (by rw [spaces]; rfl)

theorem addIndent_atEnd (text : Bytes) (pretty : Bool) (curIndent : UInt32) :
    addIndent (.atEnd text) pretty curIndent = .atEnd (text ++ indentation pretty curIndent) := by
  rw [addIndent_eq (Nat.le_refl _), Stream.write_atEnd]

/-- What is written behind each element. -/
def separator (pretty : Bool) : Bytes :=
  letter ',' ++ lineEnd pretty

/-- Going back over the separator. -/
def goBack (s : Stream UInt8) (pretty : Bool) : Stream UInt8 :=
  if pretty then (s.seekBack 2).write endl else s.seekBack 1

/-- In pretty output, a byte of the separator is left behind the end of the
line.  The indentation is written over it, or the bracket. -/
theorem goBack_closed (text : Bytes) (pretty : Bool) (curIndent : UInt32) (bracket : Char) :
    (addIndent (goBack (.atEnd (text ++ separator pretty)) pretty) pretty curIndent).write
        (letter bracket) =
      .atEnd (text ++ (lineEnd pretty ++ indentation pretty curIndent ++ letter bracket)) := by
  have lastLine : goBack (.atEnd (text ++ separator pretty)) pretty =
      ((Stream.atEnd (text ++ separator pretty)).seekBack (separator pretty).length).write
        (lineEnd pretty) := by
    cases pretty with
    | false => exact (Stream.write_nil _).symm
    | true => rfl
  have within : ((Stream.atEnd (text ++ separator pretty)).seekBack
      (separator pretty).length).put ≤ (text ++ separator pretty).length :=
    Nat.sub_le _ _
  have covers : (separator pretty).length ≤
      (lineEnd pretty ++ indentation pretty curIndent ++ letter bracket).length := by
    have one := String.length_utf8EncodeChar bracket
    have some := bracket.utf8Size_pos
    cases pretty <;>
      · simp only [separator, List.length_append, letter, one]
        have : (String.utf8EncodeChar ',').length = 1 := rfl
        omega
  rw [lastLine, addIndent_eq (Stream.within_write within _), Stream.write_write _ _ _ within,
    Stream.write_write _ _ _ within, Stream.seekBack_write covers]

/-- The text of an array or object whose elements are written as so many
pieces. -/
def bracketed (visitor : JSONVisitor) (opening closing : Char) (pieces : List Bytes) : Bytes :=
  letter opening ++ lineEnd visitor.pretty ++
    (if pieces = [] then []
    else (separator visitor.pretty).intercalate pieces ++ lineEnd visitor.pretty) ++
    indentation visitor.pretty visitor.curIndent ++ letter closing

/-- A loop that writes a piece and a separator in each turn, between brackets. -/
theorem bracketed_written {Element : Type} (visitor : JSONVisitor) (opening closing : Char)
    (body : Stream UInt8 → Element → Stream UInt8) (piece : Element → Bytes)
    (writes : ∀ text element,
      body (.atEnd text) element = .atEnd (text ++ (piece element ++ separator visitor.pretty)))
    (elements : List Element) :
    let s := elements.foldl body (.atEnd (letter opening ++ lineEnd visitor.pretty))
    let s := if elements.isEmpty then s else goBack s visitor.pretty
    ((addIndent s visitor.pretty visitor.curIndent).write (letter closing)).text =
      visitor.bracketed opening closing (elements.map piece) := by
  dsimp only
  rw [Stream.foldl_write_atEnd body _ writes]
  by_cases none : elements = []
  · subst none
    simp only [List.flatMap_nil, List.append_nil, List.isEmpty_nil, if_true, List.map_nil]
    rw [addIndent_atEnd, Stream.write_atEnd]
    simp [bracketed, Stream.atEnd]
  · have some : elements.map piece ≠ [] := fun nothing => none (List.map_eq_nil_iff.mp nothing)
    have joined : (elements.flatMap fun element => piece element ++ separator visitor.pretty) =
        (separator visitor.pretty).intercalate (elements.map piece) ++
          separator visitor.pretty := by
      rw [← flatMap_separated _ some, List.flatMap_map]
    rw [List.isEmpty_eq_false_iff.mpr none, joined, ← List.append_assoc]
    simp only [Bool.false_eq_true, if_false]
    rw [goBack_closed]
    simp only [bracketed, some, if_false, Stream.atEnd, List.append_assoc]

theorem makeArray_eq (visitor : JSONVisitor) (values : List Bytes) :
    visitor.makeArray values = visitor.bracketed '[' ']'
      (values.map fun value => indentation visitor.pretty visitor.curIndent ++ value) := by
  rw [← bracketed_written visitor '[' ']' (fun s value =>
    let s := addIndent s visitor.pretty visitor.curIndent
    let s := (s.write value).write (letter ',')
    if visitor.pretty then s.write endl else s)]
  · unfold makeArray goBack
    cases visitor.pretty <;> simp [Stream.write_atEnd, lineEnd]
  · intro text value
    cases visitor.pretty <;>
      simp [addIndent_atEnd, Stream.write_atEnd, separator, lineEnd]

/-- A member of an object, as the visitor writes it. -/
def memberPiece (visitor : JSONVisitor) (member : Bytes × Bytes) : Bytes :=
  indentation visitor.pretty (visitor.curIndent + visitor.indent) ++
    (letter '"' ++ member.1 ++ letter '"' ++ letter ':' ++
      (if visitor.pretty then letter ' ' else []) ++ member.2)

theorem makeObject_eq (visitor : JSONVisitor) (values : List (Bytes × Bytes)) :
    visitor.makeObject values =
      visitor.bracketed '{' '}' (values.map visitor.memberPiece) := by
  rw [← bracketed_written visitor '{' '}' (fun s value =>
    let s := addIndent s visitor.pretty (visitor.curIndent + visitor.indent)
    let s := ((s.write (letter '"')).write value.1).write (letter '"' ++ letter ':')
    let s := ((s.write (if visitor.pretty then letter ' ' else [])).write value.2).write
      (letter ',')
    if visitor.pretty then s.write endl else s)]
  · unfold makeObject goBack
    cases visitor.pretty <;> simp [Stream.write_atEnd, lineEnd]
  · intro text value
    unfold memberPiece
    cases visitor.pretty <;>
      simp [addIndent_atEnd, Stream.write_atEnd, separator, lineEnd]

end JSONVisitor

end Rangexx
