import Fixity.Proofs.Loading
import Fixity.Proofs.Recognition

/-!
Contract: the sections of the standard library, one after the other.

Owns:
- `Spelling`, the characters of the lines of a text;
- `Outline.Section`, a stretch of text that leads from one outline to another one, and the sections
  of the library as such stretches;
- `Outline.Section.leads_library`: the whole library leads from the native functions to
  `Outline.library`.

Each section is read and checked on its own, in one closed computation.
-/

namespace Fixity

open Eval

/-! ## Texts -/

/-- Lines of a text with their characters. -/
structure Spelling (lines : List String) where
  rows : List (List Char)
  spelled : lines.map String.toList = rows

namespace Spelling

def nil : Spelling [] := ⟨[], rfl⟩

def cons {line : String} {characters : List Char} {others : List String}
    (told : line.toList = characters) (spelling : Spelling others) : Spelling (line :: others) :=
  ⟨characters :: spelling.rows, by rw [List.map_cons, told, spelling.spelled]⟩

def composition : Spelling Prelude.composition := by
  repeat first | exact nil | refine cons String.toList_ofList ?_

def macroApplication : Spelling Prelude.macroApplication := by
  repeat first | exact nil | refine cons String.toList_ofList ?_

def operatorFunctions : Spelling Prelude.operatorFunctions := by
  repeat first | exact nil | refine cons String.toList_ofList ?_

def logic : Spelling Prelude.logic := by
  repeat first | exact nil | refine cons String.toList_ofList ?_

def lists : Spelling Prelude.lists := by
  repeat first | exact nil | refine cons String.toList_ofList ?_

def digits : Spelling Prelude.digits := by
  repeat first | exact nil | refine cons String.toList_ofList ?_

def listOperators : Spelling Prelude.listOperators := by
  repeat first | exact nil | refine cons String.toList_ofList ?_

def treeBuilding : Spelling Prelude.treeBuilding := by
  repeat first | exact nil | refine cons String.toList_ofList ?_

def control : Spelling Prelude.control := by
  repeat first | exact nil | refine cons String.toList_ofList ?_

def sorting : Spelling Prelude.sorting := by
  repeat first | exact nil | refine cons String.toList_ofList ?_

def constants : Spelling Prelude.constants := by
  repeat first | exact nil | refine cons String.toList_ofList ?_

/-- The sections of the library, line by line. -/
def sections : List (List (List Char)) :=
  [composition.rows, macroApplication.rows, operatorFunctions.rows, logic.rows, lists.rows,
    digits.rows, listOperators.rows, treeBuilding.rows, control.rows, sorting.rows, constants.rows]

/-- What is left of the library behind a number of sections, with the line break in front of it. -/
def behind (place : Nat) : List Char :=
  (sections.drop place).flatten.flatMap ('\n' :: ·)

theorem intercalate_eq_tail (separator : Char) (rows : List (List Char)) :
    List.intercalate [separator] rows = (rows.flatMap (separator :: ·)).tail := by
  induction rows with
  | nil => rfl
  | cons row rows inductionHypothesis =>
      cases rows with
      | nil => simp
      | cons next rows => simp [List.intercalate_cons_cons, inductionHypothesis]

theorem toList_source : Prelude.source.toList = (behind 0).tail := by
  have told : Prelude.lines.map String.toList = sections.flatten := by
    simp only [Prelude.lines, List.map_append, composition.spelled, macroApplication.spelled,
      operatorFunctions.spelled, logic.spelled, lists.spelled, digits.spelled,
      listOperators.spelled, treeBuilding.spelled, control.spelled, sorting.spelled,
      constants.spelled, sections, List.flatten_cons, List.flatten_nil, List.append_nil,
      List.append_assoc]
  have separator : "\n".toList = ['\n'] := String.toList_ofList
  rw [Prelude.source, String.toList_intercalate, told, separator, behind, List.drop_zero]
  exact intercalate_eq_tail '\n' _

end Spelling

/-! ## Sections -/

namespace Outline

/-- Statements are nested no deeper than this. -/
def nesting : Nat := 6

/-- Whether a text starts with a number of statements that lead from one outline to another one, and
goes on with the given rest. -/
def passes (count : Nat) (outline : Outline) (text : List Char) (next : Outline)
    (rest : List Char) : Bool :=
  match Syntax.tokenize outline.levels.isGlyph text with
  | .error _ => false
  | .ok statements =>
      match load? nesting count outline text statements with
      | none => false
      | some (found, left) => found.covers next && left == rest

/-- A section of the library, which leads from one outline to another one. -/
structure Section (outline : Outline) (text : List Char) (next : Outline) (rest : List Char) where
  statements : Nat
  passes : passes statements outline text next rest

theorem Section.leads {outline next : Outline} {text rest : List Char}
    (passage : Section outline text next rest) (host : Host) (bound : Nat) :
    Leads (run host (bound + 2 + nesting + 2)) outline text next rest := by
  obtain ⟨count, passes⟩ := passage
  unfold Outline.passes at passes
  split at passes
  · cases passes
  · next statements divided =>
    split at passes
    · cases passes
    · next found left loaded =>
      obtain ⟨covers, same⟩ := Bool.and_eq_true_iff.mp passes
      obtain rfl : left = rest := eq_of_beq same
      intro state last describes
      obtain ⟨reached, last', described, same⟩ := leads_of_load? divided loaded state last describes
      exact ⟨reached, last', described.of_covers covers, same⟩

namespace Section

open Spelling

def composition : Section .native (behind 0).tail .composition (behind 1) :=
  ⟨3, by decide +kernel⟩

def macroApplication : Section .composition (behind 1) .macroApplication (behind 2) :=
  ⟨2, by decide +kernel⟩

def operatorFunctions : Section .macroApplication (behind 2) .operatorFunctions (behind 3) :=
  ⟨22, by decide +kernel⟩

def logic : Section .operatorFunctions (behind 3) .logic (behind 4) :=
  ⟨11, by decide +kernel⟩

def lists : Section .logic (behind 4) .logic (behind 5) :=
  ⟨10, by decide +kernel⟩

def digits : Section .logic (behind 5) .logic (behind 6) :=
  ⟨9, by decide +kernel⟩

def listOperators : Section .logic (behind 6) .listOperators (behind 7) :=
  ⟨8, by decide +kernel⟩

def treeBuilding : Section .listOperators (behind 7) .treeBuilding (behind 8) :=
  ⟨5, by decide +kernel⟩

def control : Section .treeBuilding (behind 8) .control (behind 9) :=
  ⟨7, by decide +kernel⟩

def sorting : Section .control (behind 9) .library (behind 10) :=
  ⟨1, by decide +kernel⟩

def constants : Section .library (behind 10) .library (behind 11) :=
  ⟨4, by decide +kernel⟩

/-- The sections, one after the other. -/
theorem leads_library (host : Host) (bound : Nat) :
    Leads (run host (bound + 2 + nesting + 2)) native Prelude.source.toList library [] := by
  rw [toList_source]
  refine (composition.leads host bound).trans ((macroApplication.leads host bound).trans
    ((operatorFunctions.leads host bound).trans ((logic.leads host bound).trans
      ((lists.leads host bound).trans ((digits.leads host bound).trans
        ((listOperators.leads host bound).trans ((treeBuilding.leads host bound).trans
          ((control.leads host bound).trans ((sorting.leads host bound).trans
            (constants.leads host bound))))))))))

end Section

end Outline

end Fixity
