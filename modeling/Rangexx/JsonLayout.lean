import Rangexx.JsonOutput

/-!
# Pretty output

The pretty output of `JSONVisitor` has line ends, indentation and a space
behind each colon that the compact output does not have, and nothing else.
-/

namespace Rangexx

open OverwritingStream JsonText

/-! ## Whitespace outside strings -/

/-- Where a byte of a JSON text stands. -/
inductive Place where
  | outside
  | inside
  | escaped
  deriving DecidableEq, Repr

def isSpace (byte : UInt8) : Bool :=
  byte = 32 || byte = 9 || byte = 10 || byte = 13

/-- The text without the whitespace outside its strings. -/
def strip : Place → Bytes → Bytes
  | _, [] => []
  | .outside, byte :: rest =>
      if byte = 34 then byte :: strip .inside rest
      else if isSpace byte then strip .outside rest
      else byte :: strip .outside rest
  | .inside, byte :: rest =>
      if byte = 34 then byte :: strip .outside rest
      else if byte = 92 then byte :: strip .escaped rest
      else byte :: strip .inside rest
  | .escaped, byte :: rest => byte :: strip .inside rest

/-- Wherever a text stands outside strings, this is left of it, and what
follows is outside again. -/
def Leaves (text left : Bytes) : Prop :=
  ∀ rest, strip .outside (text ++ rest) = left ++ strip .outside rest

namespace Leaves

theorem strip_eq {text left : Bytes} (leaves : Leaves text left) : strip .outside text = left := by
  have whole := leaves []
  rwa [List.append_nil, strip, List.append_nil] at whole

theorem nil : Leaves [] [] :=
  fun _ => rfl

theorem append {first second left right : Bytes} (leaves : Leaves first left)
    (others : Leaves second right) : Leaves (first ++ second) (left ++ right) := by
  intro rest
  rw [List.append_assoc, leaves, others, List.append_assoc]

theorem space {byte : UInt8} (isSpace : isSpace byte = true) (notQuote : byte ≠ 34) :
    Leaves [byte] [] := by
  intro rest
  simp [strip, isSpace, notQuote]

theorem spaces (count : Nat) : Leaves (List.replicate count 32) [] := by
  induction count with
  | zero => exact nil
  | succ count ih => exact (space rfl (by decide)).append ih

/-- A byte that is neither a quote nor whitespace. -/
theorem byte {byte : UInt8} (notSpace : isSpace byte = false) (notQuote : byte ≠ 34) :
    Leaves [byte] [byte] := by
  intro rest
  simp [strip, notSpace, notQuote]

theorem quoted {value : Bytes} (noQuote : 34 ∉ value) (noBackslash : 92 ∉ value) :
    Leaves (34 :: value ++ [34]) (34 :: value ++ [34]) := by
  have inside (rest : Bytes) :
      strip .inside (value ++ 34 :: rest) = value ++ 34 :: strip .outside rest := by
    induction value with
    | nil => rfl
    | cons byte value ih =>
        rw [List.mem_cons, not_or] at noQuote noBackslash
        rw [List.cons_append, strip, if_neg (Ne.symm noQuote.1), if_neg (Ne.symm noBackslash.1),
          ih noQuote.2 noBackslash.2, List.cons_append]
  intro rest
  have start : 34 :: value ++ [34] ++ rest = 34 :: (value ++ 34 :: rest) := by simp
  rw [start, strip, if_pos rfl, inside]
  simp

theorem intercalate {Element : Type} {separator single : Bytes}
    (leaves : Leaves separator single) {piece left : Element → Bytes} {elements : List Element}
    (pieces : ∀ element ∈ elements, Leaves (piece element) (left element)) :
    Leaves (separator.intercalate (elements.map piece)) (single.intercalate (elements.map left)) := by
  induction elements with
  | nil => exact nil
  | cons element rest ih =>
      have ⟨first, others⟩ := List.forall_mem_cons.mp pieces
      cases rest with
      | nil => simpa using first
      | cons next rest =>
          simp only [List.map_cons, List.intercalate_cons_cons] at ih ⊢
          exact (first.append leaves).append (ih others)

end Leaves

/-! ## Pretty output -/

namespace JSONVisitor

variable {Number : Type} {lexicalCast : Number → Bytes}

theorem leaves_indentation (curIndent : UInt32) : Leaves (indentation true curIndent) [] :=
  .spaces curIndent.toNat

/-- The brackets and the colon. -/
theorem leaves_letter {char : Char} (mark : char ∈ ['[', ']', '{', '}', ':', ',']) :
    Leaves (letter char) (letter char) := by
  simp only [List.mem_cons, List.not_mem_nil, or_false] at mark
  rcases mark with rfl | rfl | rfl | rfl | rfl | rfl <;> exact .byte rfl (by decide)

theorem leaves_endl : Leaves endl [] :=
  .space rfl (by decide)

theorem leaves_bracketed {visitor : JSONVisitor} (pretty : visitor.pretty = true)
    {opening closing : Char} (opens : Leaves (letter opening) (letter opening))
    (closes : Leaves (letter closing) (letter closing)) {Element : Type}
    {piece left : Element → Bytes} {elements : List Element}
    (pieces : ∀ element ∈ elements, Leaves (piece element) (left element)) :
    Leaves (visitor.bracketed opening closing (elements.map piece))
      (letter opening ++ (letter ',').intercalate (elements.map left) ++ letter closing) := by
  have lines : Leaves (lineEnd visitor.pretty) [] := by
    rw [pretty]
    exact leaves_endl
  have indented : Leaves (indentation visitor.pretty visitor.curIndent) [] := by
    rw [pretty]
    exact leaves_indentation visitor.curIndent
  have comma : Leaves (separator visitor.pretty) (letter ',') := by
    have mark : Leaves (letter ',') (letter ',') := leaves_letter (by decide)
    simpa [separator] using mark.append lines
  have body : Leaves
      (if elements.map piece = [] then []
      else (separator visitor.pretty).intercalate (elements.map piece) ++ lineEnd visitor.pretty)
      ((letter ',').intercalate (elements.map left)) := by
    by_cases none : elements = []
    · subst none
      exact .nil
    · rw [if_neg (fun nothing => none (List.map_eq_nil_iff.mp nothing))]
      simpa using (Leaves.intercalate comma pieces).append lines
  simpa [bracketed] using (((opens.append lines).append body).append indented).append closes

/-- Without the whitespace outside its strings, the pretty output is the text
printed for the structure. -/
theorem leaves_visit {visitor : JSONVisitor} (pretty : visitor.pretty = true)
    {s : RangeStruct Number} (built : s.NumberFree)
    (clean : ∀ value ∈ (s.toJson lexicalCast).texts, 34 ∉ value ∧ 92 ∉ value) :
    Leaves (visitor.visit lexicalCast s) ((s.toJson lexicalCast).print letter id) := by
  induction built generalizing visitor with
  | @rangeObject values parts ih =>
      rw [RangeStruct.toJson, Json.texts, Json.textsOfMembers_eq,
        RangeStruct.membersToJson_eq, List.flatMap_map] at clean
      rw [visit, makeObject_eq, RangeStruct.toJson, Json.print, visitMembers_eq,
        RangeStruct.membersToJson_eq, Json.printMembers_eq, List.map_map, List.map_map]
      refine leaves_bracketed pretty (leaves_letter (by decide)) (leaves_letter (by decide)) ?_
      intro member inMembers
      have key := clean member.1 (List.mem_flatMap_of_mem inMembers List.mem_cons_self)
      have value := @ih member inMembers visitor.inner pretty fun text inTexts =>
        clean text (List.mem_flatMap_of_mem inMembers (List.mem_cons_of_mem _ inTexts))
      have colon : Leaves (letter ':') (letter ':') := leaves_letter (by decide)
      have pad : Leaves (letter ' ') [] := .space rfl (by decide)
      have written := ((((leaves_indentation (visitor.curIndent + visitor.indent)).append
        (Leaves.quoted key.1 key.2)).append colon).append pad).append value
      have quote : letter '"' = [34] := rfl
      simpa [memberPiece, pretty, Json.quoted, quote] using written
  | @rangeArray values parts ih | @rangeTuple values parts ih =>
      rw [RangeStruct.toJson, Json.texts, Json.textsOf_eq,
        RangeStruct.valuesToJson_eq, List.flatMap_map] at clean
      rw [visit, makeArray_eq, RangeStruct.toJson, Json.print, visitValues_eq,
        RangeStruct.valuesToJson_eq, Json.printValues_eq, List.map_map, List.map_map]
      refine leaves_bracketed pretty (leaves_letter (by decide)) (leaves_letter (by decide)) ?_
      intro value inValues
      have inner := @ih value inValues visitor.inner pretty fun text inTexts =>
        clean text (List.mem_flatMap_of_mem inValues inTexts)
      have written := (leaves_indentation visitor.curIndent).append inner
      simpa [pretty] using written
  | rangeString value =>
      have noSpecial := clean value List.mem_cons_self
      exact .quoted noSpecial.1 noSpecial.2
  | rangeTrue | rangeFalse | rangeNull =>
      intro rest
      rfl

end JSONVisitor

/-- Pretty output and compact output differ in whitespace outside strings
only, whatever the indentation. -/
theorem pretty_strips_to_compact {Number : Type} (lexicalCast : Number → Bytes)
    (indent curIndent : UInt32) {s : RangeStruct Number} (built : s.NumberFree)
    (clean : ∀ value ∈ (s.toJson lexicalCast).texts, 34 ∉ value ∧ 92 ∉ value) :
    strip .outside (JSONVisitor.visit lexicalCast ⟨true, indent, curIndent⟩ s) =
      JSONVisitor.visit lexicalCast ⟨false, indent, curIndent⟩ s := by
  have compact : JSONVisitor.visit lexicalCast ⟨false, indent, curIndent⟩ s =
      (s.toJson lexicalCast).print letter id := JSONVisitor.visit_compact rfl built
  rw [compact]
  exact (JSONVisitor.leaves_visit rfl built clean).strip_eq

/-- An array in an object, with an indentation of two. -/
theorem pretty_strips_to_compact_nested :
    strip .outside (JSONVisitor.visit (fun _ : Nat => []) ⟨true, 2, 0⟩
      (.rangeObject [(utf8 ['a', ' ', 'b'], .rangeArray [.rangeTrue, .rangeNull])])) =
    JSONVisitor.visit (fun _ : Nat => []) ⟨false, 2, 0⟩
      (.rangeObject [(utf8 ['a', ' ', 'b'], .rangeArray [.rangeTrue, .rangeNull])]) := by
  refine pretty_strips_to_compact _ 2 0 (.rangeObject ?_) ?_
  · simp only [List.forall_mem_cons]
    refine ⟨.rangeArray ?_, List.forall_mem_nil _⟩
    simp only [List.forall_mem_cons]
    exact ⟨.rangeTrue, .rangeNull, List.forall_mem_nil _⟩
  · intro value member
    obtain rfl := List.mem_singleton.mp member
    decide

end Rangexx
