import Mathlib.Data.List.Basic
import Mathlib.Tactic

/-! Text as a list of lines. -/

namespace Lib

/-- The rest of the text, with the part of the current line already read. -/
def linesFrom : List Char → List Char → List (List Char)
  | current, [] => if current = [] then [] else [current]
  | current, c :: rest =>
    if c = '\n' then
      (if current.getLast? = some '\r' then current.dropLast else current) :: linesFrom [] rest
    else linesFrom (current ++ [c]) rest

/-- `str::lines`: a line ends with a newline, or a carriage return and a newline; a text that
ends with a newline has no empty last line. -/
def lines (text : List Char) : List (List Char) := linesFrom [] text

/-- Lines, each with its newline. -/
def unlines (ls : List (List Char)) : List Char := ls.flatMap fun line => line ++ ['\n']

@[simp] theorem unlines_nil : unlines [] = [] := rfl

@[simp] theorem unlines_append (xs ys : List (List Char)) :
    unlines (xs ++ ys) = unlines xs ++ unlines ys :=
  List.flatMap_append

@[simp] theorem unlines_singleton (line : List Char) : unlines [line] = line ++ ['\n'] := by
  simp [unlines]

theorem unlines_cons (line : List Char) (ls : List (List Char)) :
    unlines (line :: ls) = line ++ ['\n'] ++ unlines ls := by
  simp [unlines]

/-- A line without control characters. -/
def CleanLine (line : List Char) : Prop := '\n' ∉ line ∧ '\r' ∉ line

theorem linesFrom_line {current line : List Char} (h : '\n' ∉ line) (rest : List Char) :
    linesFrom current (line ++ rest) = linesFrom (current ++ line) rest := by
  induction line generalizing current with
  | nil => simp
  | cons c line ih =>
    rw [List.mem_cons, not_or] at h
    rw [List.cons_append, linesFrom, if_neg (Ne.symm h.1), ih h.2]
    simp

/-- Clean lines are read back in front of any text. -/
theorem lines_unlines_append {ls : List (List Char)} (h : ∀ line ∈ ls, CleanLine line)
    (rest : List Char) : lines (unlines ls ++ rest) = ls ++ lines rest := by
  induction ls with
  | nil => rfl
  | cons line ls ih =>
    obtain ⟨hnl, hcr⟩ := h line List.mem_cons_self
    have hlast : line.getLast? ≠ some '\r' := fun hl => hcr (List.mem_of_getLast? hl)
    rw [unlines_cons, List.append_assoc, List.append_assoc, lines, linesFrom_line hnl,
      List.nil_append, List.singleton_append, linesFrom, if_pos rfl, if_neg hlast]
    exact congrArg _ (ih fun l hl => h l (List.mem_cons_of_mem _ hl))

theorem lines_unlines {ls : List (List Char)} (h : ∀ line ∈ ls, CleanLine line) :
    lines (unlines ls) = ls := by
  have happ := lines_unlines_append h []
  rw [List.append_nil] at happ
  rw [happ]
  exact List.append_nil ls

/-- A text without a newline is one line, or none. -/
theorem lines_of_no_newline {text : List Char} (h : '\n' ∉ text) :
    lines text = if text = [] then [] else [text] := by
  have hline := @linesFrom_line [] text h []
  rw [List.append_nil, List.nil_append] at hline
  rw [lines, hline, linesFrom]

end Lib
