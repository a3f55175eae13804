import Rangexx.LookupPaths
import Rangexx.SetOperators

/-!
# Absent and empty operands

A side of a brace expansion that is not written and one that expands to no
names reach the visitor as the same empty list, and arguments of a function
that expand to no names are left out of the call.
-/

namespace Rangexx

namespace ASTNode

def isNull : ASTNode → Bool
  | .null => true
  | _ => false

end ASTNode

/-- The compiler reads a text as a tree. -/
def Compiler.Reads (compiler : Compiler) (text : String) (top : ASTNode) : Prop :=
  RangeParser.parse compiler.function
    (RangeScanner.tokens compiler.functions (RangeScanner.scannerOn text.toList)) =
      some (.accept top)

namespace ExpressionVisitor

variable (visitor : ExpressionVisitor)

/-! ## Brace expansions -/

/-- The names made of one name of each list. -/
def crossProduct (left center right : List String) : List String :=
  left.flatMap fun x => center.flatMap fun y => right.map fun z => x ++ y ++ z

/-- The names of a side, of which one that is not written has the empty one. -/
def sideNames (side : ASTNode) (found : List String) : List String :=
  if side.isNull then [""] else found

/-- The names of a side as the visitor takes them. -/
def sideOrEmpty (found : List String) : List String :=
  if found ≠ [] then found else [""]

theorem braceProducts_eq (lchildren cchildren rchildren : List String) :
    braceProducts lchildren cchildren rchildren =
      crossProduct (sideOrEmpty lchildren) cchildren (sideOrEmpty rchildren) := by
  have withLeft : (if lchildren ≠ [] then
        lchildren.flatMap fun lchild => cchildren.map fun cchild => lchild ++ cchild
      else cchildren) =
      (sideOrEmpty lchildren).flatMap fun x => cchildren.map fun y => x ++ y := by
    unfold sideOrEmpty
    split
    · rfl
    · simp
  have withRight : ∀ names : List String, (if rchildren ≠ [] then
        names.flatMap fun t => rchildren.map fun rchild => t ++ rchild else names) =
      names.flatMap fun t => (sideOrEmpty rchildren).map fun z => t ++ z := by
    intro names
    unfold sideOrEmpty
    split
    · rfl
    · simp
  unfold braceProducts crossProduct
  dsimp only
  rw [withLeft, withRight, List.flatMap_assoc]
  congr 1
  funext x
  rw [List.flatMap_map]

theorem length_crossProduct (left center right : List String) :
    (crossProduct left center right).length = left.length * (center.length * right.length) := by
  simp [crossProduct, List.length_flatMap]

example : crossProduct ["a", "b"] ["0", "1"] [""] = ["a0", "a1", "b0", "b1"] := by
  decide +kernel

theorem sideOrEmpty_ne_nil (found : List String) : sideOrEmpty found ≠ [] := by
  unfold sideOrEmpty
  split
  · assumption
  · simp

theorem sideNames_ne_nil_iff (side : ASTNode) (found : List String) :
    sideNames side found ≠ [] ↔ side.isNull ∨ found ≠ [] := by
  unfold sideNames
  split
  · rename_i absent
    exact iff_of_true (List.cons_ne_nil _ _) (Or.inl absent)
  · rename_i written
    exact ⟨Or.inr, fun either => either.resolve_left written⟩

/-- A side is taken for what it is unless it is written and expands to
nothing. -/
theorem sideOrEmpty_eq {side : ASTNode} {found : List String}
    (expanded : visitor.children side = .ok found) (either : side.isNull ∨ found ≠ []) :
    sideOrEmpty found = sideNames side found := by
  cases side with
  | null =>
      rw [children] at expanded
      cases expanded
      rfl
  | _ =>
      have some : found ≠ [] := either.resolve_left Bool.false_ne_true
      exact if_pos some

/-- The names of a brace expansion are the products of those of its parts, where
a side that is not written is the empty name, if and only if nothing is in
the middle or no written side expands to nothing. -/
theorem braceExpand_iff {left center right : ASTNode} {lnames cnames rnames : List String}
    (lexpanded : visitor.children left = .ok lnames)
    (cexpanded : visitor.children center = .ok cnames)
    (rexpanded : visitor.children right = .ok rnames) :
    (∃ names, visitor.children (.braceExpand left center right) = .ok names ∧
        names.Perm (crossProduct (sideNames left lnames) cnames (sideNames right rnames))) ↔
      cnames = [] ∨ (left.isNull ∨ lnames ≠ []) ∧ (right.isNull ∨ rnames ≠ []) := by
  have evaluated : visitor.children (.braceExpand left center right) =
      .ok (crossProduct (sideOrEmpty lnames) cnames (sideOrEmpty rnames)) := by
    rw [children, lexpanded, cexpanded, rexpanded, ← braceProducts_eq]
    rfl
  rw [evaluated]
  constructor
  · rintro ⟨names, same, perm⟩
    cases same
    have lengths := perm.length_eq
    rw [length_crossProduct, length_crossProduct] at lengths
    rcases Nat.eq_zero_or_pos cnames.length with none | some
    · exact Or.inl (List.length_eq_zero_iff.mp none)
    right
    have lsome := List.length_pos_iff.mpr (sideOrEmpty_ne_nil lnames)
    have rsome := List.length_pos_iff.mpr (sideOrEmpty_ne_nil rnames)
    have total := Nat.mul_pos lsome (Nat.mul_pos some rsome)
    rw [lengths] at total
    have lwritten := Nat.pos_of_mul_pos_right total
    have rwritten := Nat.pos_of_mul_pos_left (Nat.pos_of_mul_pos_left total)
    exact ⟨(sideNames_ne_nil_iff left lnames).mp (List.length_pos_iff.mp lwritten),
      (sideNames_ne_nil_iff right rnames).mp (List.length_pos_iff.mp rwritten)⟩
  · rintro (rfl | ⟨leither, reither⟩)
    · refine ⟨_, rfl, ?_⟩
      simp only [crossProduct, List.flatMap_nil, List.flatMap_eq_nil_iff.mpr fun _ _ => rfl]
      exact List.Perm.refl _
    · rw [visitor.sideOrEmpty_eq lexpanded leither, visitor.sideOrEmpty_eq rexpanded reither]
      exact ⟨_, rfl, List.Perm.refl _⟩

/-- `h1,-h1`. -/
def emptyOperand : ASTNode :=
  .difference (.word "h1") (.word "h1")

/-- `(h1,-h1)`. -/
def emptySide : ASTNode :=
  .group emptyOperand

theorem braceExpand_emptySide :
    (∃ names, twoHostsVisitor.children (.braceExpand emptySide (.word "web") .null) = .ok names ∧
        names.Perm (crossProduct (sideNames emptySide []) ["web"] (sideNames .null []))) ↔
      ["web"] = [] ∨ (emptySide.isNull ∨ ([] : List String) ≠ []) ∧
        ((ASTNode.null).isNull ∨ ([] : List String) ≠ []) :=
  braceExpand_iff twoHostsVisitor (by decide +kernel) (by decide +kernel) (by decide +kernel)

/-- A side that expands to nothing is left out of the names: `(h1,-h1){web}`
gives `web`. -/
theorem braceExpand_not_product :
    ¬ ∀ (compiler : Compiler) (graph : GraphDB) (envName text : String)
        (left center right : ASTNode) (lnames cnames rnames : List String),
      compiler.Reads text (.braceExpand left center right) →
      (compiler.visitor graph envName).children left = .ok lnames →
      (compiler.visitor graph envName).children center = .ok cnames →
      (compiler.visitor graph envName).children right = .ok rnames →
        ∃ names,
          (compiler.visitor graph envName).children (.braceExpand left center right) = .ok names ∧
          names.Perm (crossProduct (sideNames left lnames) cnames (sideNames right rnames)) := by
  intro all
  obtain ⟨names, expanded, perm⟩ := all World.plainCompiler twoHostsVisitor.graph "e"
    "(h1,-h1){web}" emptySide (.word "web") .null [] ["web"] [] rfl
    (by decide +kernel) (by decide +kernel) (by decide +kernel)
  have web : (World.plainCompiler.visitor twoHostsVisitor.graph "e").children
      (.braceExpand emptySide (.word "web") .null) = .ok ["web"] := by
    decide +kernel
  cases web.symm.trans expanded
  have lengths := perm.length_eq
  exact absurd lengths (by decide)

/-! ## Arguments of functions -/

/-- The visitor calls a function with the lists that are not empty. -/
theorem argumentVecs_eq {args : List ASTNode} {vecs : List (List String)}
    (expanded : List.Forall₂ (fun arg vec => visitor.children arg = .ok vec) args vecs) :
    visitor.argumentVecs args = .ok (vecs.filter fun vec => vec ≠ []) := by
  induction expanded with
  | nil => rfl
  | @cons arg vec args vecs first _ ih =>
      rw [argumentVecs, first]
      simp only [bind, Except.bind, ih, pure, Except.pure]
      by_cases empty : vec = []
      · simp [empty]
      · simp [empty]

/-- A function is called with the expansions of its arguments, each in its
place, if and only if none of them is empty. -/
theorem function_iff {args : List ASTNode} {vecs : List (List String)}
    (expanded : List.Forall₂ (fun arg vec => visitor.children arg = .ok vec) args vecs) :
    (∀ fn : RangeFunction, visitor.children (.function fn args) = fn visitor.envName vecs) ↔
      ∀ vec ∈ vecs, vec ≠ [] := by
  have called : ∀ fn : RangeFunction, visitor.children (.function fn args) =
      fn visitor.envName (vecs.filter fun vec => vec ≠ []) := by
    intro fn
    rw [children, visitor.argumentVecs_eq expanded]
    rfl
  constructor
  · intro all
    have lengths := (called fun _ args => .ok (args.map fun _ => "")).symm.trans (all _)
    have same := congrArg List.length (Except.ok.inj lengths)
    rw [List.length_map, List.length_map, List.length_filter_eq_length_iff] at same
    intro vec member
    exact of_decide_eq_true (same vec member)
  · intro full fn
    rw [called, List.filter_eq_self.mpr fun vec member => decide_eq_true (full vec member)]

theorem function_emptyOperand :
    (∀ fn : RangeFunction, twoHostsVisitor.children (.function fn [emptyOperand, .word "web"]) =
        fn twoHostsVisitor.envName [[], ["web"]]) ↔
      ∀ vec ∈ [[], ["web"]], vec ≠ [] :=
  function_iff twoHostsVisitor (.cons (by decide +kernel) (.cons (by decide +kernel) .nil))

/-- A compiler with the function `f`, which gives a name for each vector that
it is called with. -/
def callingCompiler : Compiler :=
  { World.plainCompiler with
    functions name := name = ['f']
    function _ _ args := .ok (args.map fun _ => "") }

/-- The second of two arguments comes first when the first expands to nothing:
`f(h1,-h1;web)` calls `f` with one vector. -/
theorem function_not_placed :
    ¬ ∀ (compiler : Compiler) (graph : GraphDB) (envName text : String) (fn : RangeFunction)
        (args : List ASTNode) (vecs : List (List String)), 2 ≤ args.length →
      compiler.Reads text (.function fn args) →
      List.Forall₂ (fun arg vec => (compiler.visitor graph envName).children arg = .ok vec)
        args vecs →
        (compiler.visitor graph envName).children (.function fn args) = fn envName vecs := by
  intro all
  have placed := all callingCompiler twoHostsVisitor.graph "e" "f(h1,-h1;web)"
    (callingCompiler.function "f") [emptyOperand, .word "web"] [[], ["web"]] (by decide) rfl
    (.cons (by decide +kernel) (.cons (by decide +kernel) .nil))
  have called : (callingCompiler.visitor twoHostsVisitor.graph "e").children
      (.function (callingCompiler.function "f") [emptyOperand, .word "web"]) = .ok [""] := by
    decide +kernel
  rw [called] at placed
  exact absurd (Except.ok.inj placed) (by decide)

end ExpressionVisitor

end Rangexx
