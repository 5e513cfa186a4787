import Mathlib.Data.List.Basic
import Montage.Evaluation.Watch
import Montage.Expression.Render
import Montage.Proofs.Expression.Encoding
import Montage.Proofs.Text.Lines
import Montage.Proofs.Text.Numerals

/-!
# The drawing of a tree

The drawing of a tree has one line for each operation and each operand. Nothing marks the end of a
chain, and the operands of a step stand at the indentation of an overlay's argument; still a drawing
is that of one tree only. A first line tells what the last operation is, and with it how the lines
go on, so the lines of a tree are found at the start of any others (`lines_append_inj`).

How a drawing is laid out is told by `Node.Drawn`: at the indentation of a chain stand its
operations, from the last one to the image at its root, each with its operands or the drawing of its
argument below it, two columns further in. The main statement is `render_faithful`.
-/

namespace Montage

open Text

/-- The number of blanks that a line starts with. -/
def Text.indentation (line : String) : Nat :=
  (line.toList.takeWhile (· == ' ')).length

/-- The tag of a step. -/
def Step.tag {α : Type} : Step α → Tag
  | frame how _ _ => how.tag
  | blur _ => .blur
  | overlay _ => .overlay

namespace Node

/-- The steps of a chain, the last one first. -/
def steps : Node → List (Step Node)
  | image _ => []
  | frame how source width height => .frame how width height :: source.steps
  | blur source strength => .blur strength :: source.steps
  | overlay source argument => .overlay argument :: source.steps

/-- The line of a step. -/
def stepLine (indent : Nat) (step : Step Node) : String :=
  lines.pad indent ++ step.tag.mnemonic

/-- The line of the image at the root of a chain. -/
def rootLine (indent : Nat) (index : Int) : String :=
  lines.pad indent ++ s!"{Tag.image.mnemonic} {index}"

/-- What stands below the line of a step: its operands in the order of the text, or the drawing of
its argument. -/
def belowStep (indent : Nat) : Step Node → List String
  | .frame _ width height =>
    [lines.pad indent ++ toString width, lines.pad indent ++ toString height]
  | .blur strength => [lines.pad indent ++ toString strength]
  | .overlay argument => argument.lines indent

/-- How the lines of a tree are laid out at an indentation, and those of the arguments in it. -/
inductive Drawn : Node → Nat → Prop where
  /-- The steps of the chain come from the last one to the first one, each followed by what is below
  it, and then the root. Their lines are all that stands at this indentation, and the argument of
  each overlay is laid out two columns further in. -/
  | intro {n : Node} {indent : Nat}
    (blocks : n.lines indent =
      n.steps.flatMap (fun step => stepLine indent step :: belowStep (indent + 2) step) ++
        [rootLine indent n.root])
    (outline : (n.lines indent).filter (indentation · = indent) =
      n.steps.map (stepLine indent) ++ [rootLine indent n.root])
    (inside : ∀ line ∈ n.lines indent, indent ≤ indentation line)
    (arguments : ∀ argument, .overlay argument ∈ n.steps → Drawn argument (indent + 2)) :
    Drawn n indent

variable {n n' : Node} {indent : Nat}

/-! ## Blanks -/

/-- The blanks of a line count up to the first other character. -/
theorem indentation_pad {text : String} (htext : text.toList.head? ≠ some ' ') :
    indentation (lines.pad indent ++ text) = indent := by
  have hblanks : ∀ c ∈ List.replicate indent ' ', (c == ' ') = true := by
    intro c hc
    rw [List.eq_of_mem_replicate hc]
    rfl
  have hstop : text.toList.takeWhile (· == ' ') = [] := by
    cases h : text.toList with
    | nil => rfl
    | cons c rest =>
      have hc : c ≠ ' ' := by simpa [h] using htext
      simp [hc]
  rw [indentation, lines.pad, String.toList_append, String.toList_ofList,
    List.takeWhile_append_of_pos hblanks, hstop, List.append_nil, List.length_replicate]

theorem indentation_stepLine (step : Step Node) : indentation (stepLine indent step) = indent := by
  have hletters : step.tag.mnemonic.toList.head? ≠ some ' ' := by
    cases step.tag <;> decide
  exact indentation_pad hletters

/-- The characters of the line of a root. -/
theorem toList_root (index : Int) :
    (s!"{Tag.image.mnemonic} {index}").toList = 'i' :: 'd' :: ' ' :: (toString index).toList := by
  show ("id" ++ " " ++ toString index).toList = _
  rw [String.toList_append]
  rfl

theorem indentation_rootLine (index : Int) : indentation (rootLine indent index) = indent := by
  refine indentation_pad ?_
  rw [toList_root]
  simp

theorem indentation_operand (operand : Int) :
    indentation (lines.pad indent ++ toString operand) = indent := by
  refine indentation_pad fun hblank => ?_
  exact Numeral.not_mem_toString (by decide) (by decide) operand (List.mem_of_head? hblank)

/-- A line that belongs to a tree: that of a step, of a root or of an operand, at some indentation
or further in. -/
inductive Stands (indent : Nat) : String → Prop where
  /-- The line of a step. -/
  | step {k : Nat} (hk : indent ≤ k) (step : Step Node) : Stands indent (stepLine k step)
  /-- The line of a root. -/
  | root {k : Nat} (hk : indent ≤ k) (index : Int) : Stands indent (rootLine k index)
  /-- The line of an operand. -/
  | operand {k : Nat} (hk : indent ≤ k) (operand : Int) :
    Stands indent (lines.pad k ++ toString operand)

/-- What stands further in stands at the indentation or further in. -/
theorem Stands.outward {line : String} (h : Stands (indent + 2) line) : Stands indent line := by
  cases h with
  | step hk step => exact .step (by omega) step
  | root hk index => exact .root (by omega) index
  | operand hk operand => exact .operand (by omega) operand

/-- Each line of a tree belongs to one. -/
theorem stands_of_mem_lines {line : String} (hline : line ∈ n.lines indent) :
    Stands indent line := by
  induction n generalizing indent with
  | image index =>
    obtain rfl := List.mem_singleton.1 hline
    exact .root (Nat.le_refl _) index
  | frame how source width height ih =>
    simp only [lines, List.mem_cons] at hline
    obtain rfl | rfl | rfl | hline := hline
    · exact .step (Nat.le_refl _) (.frame how width height)
    · exact .operand (Nat.le_add_right indent 2) width
    · exact .operand (Nat.le_add_right indent 2) height
    · exact ih hline
  | blur source strength ih =>
    simp only [lines, List.mem_cons] at hline
    obtain rfl | rfl | hline := hline
    · exact .step (Nat.le_refl _) (.blur strength)
    · exact .operand (Nat.le_add_right indent 2) strength
    · exact ih hline
  | overlay source argument ih ih' =>
    simp only [lines, List.mem_cons, List.mem_append] at hline
    obtain rfl | hline | hline := hline
    · exact .step (Nat.le_refl _) (.overlay argument)
    · exact (ih' hline).outward
    · exact ih hline

/-- What stands in the lines of a tree stands at the indentation or further in. -/
theorem le_indentation {line : String} (hline : line ∈ n.lines indent) :
    indent ≤ indentation line := by
  cases stands_of_mem_lines hline with
  | step hk step => rwa [indentation_stepLine]
  | root hk index => rwa [indentation_rootLine]
  | operand hk operand => rwa [indentation_operand]

/-- What stands below the line of a step stands further in. -/
theorem le_indentation_below {step : Step Node} {line : String}
    (hline : line ∈ belowStep indent step) : indent ≤ indentation line := by
  cases step with
  | frame how width height =>
    simp only [belowStep, List.mem_cons, List.not_mem_nil, or_false] at hline
    obtain rfl | rfl := hline <;> exact Nat.le_of_eq (indentation_operand _).symm
  | blur strength =>
    obtain rfl := List.mem_singleton.1 hline
    exact Nat.le_of_eq (indentation_operand _).symm
  | overlay argument => exact le_indentation hline

/-! ## The layout -/

/-- The lines of a tree, one step at a time. -/
theorem lines_eq (n : Node) (indent : Nat) : n.lines indent =
    n.steps.flatMap (fun step => stepLine indent step :: belowStep (indent + 2) step) ++
      [rootLine indent n.root] := by
  induction n with
  | image index => rfl
  | frame how source width height ih => rw [lines, ih]; rfl
  | blur source strength ih => rw [lines, ih]; rfl
  | overlay source argument ih _ =>
    rw [lines, ih, steps, List.flatMap_cons, List.append_assoc]
    rfl

/-- Of a step, only its own line stands at the indentation. -/
theorem filter_block (step : Step Node) :
    (stepLine indent step :: belowStep (indent + 2) step).filter (indentation · = indent) =
      [stepLine indent step] := by
  rw [List.filter_cons_of_pos (by simpa using indentation_stepLine step), List.filter_eq_nil_iff.2]
  intro line hline
  have hle := le_indentation_below hline
  simp only [decide_eq_true_eq]
  omega

/-- The lines of steps, without what is below them. -/
theorem filter_blocks (steps : List (Step Node)) :
    (steps.flatMap fun step => stepLine indent step :: belowStep (indent + 2) step).filter
      (indentation · = indent) = steps.map (stepLine indent) := by
  induction steps with
  | nil => rfl
  | cons step rest ih =>
    rw [List.flatMap_cons, List.filter_append, filter_block, ih, List.map_cons,
      List.singleton_append]

/-- The arguments in a tree are laid out as the tree is. -/
theorem drawn_of_arguments
    (h : ∀ argument, .overlay argument ∈ n.steps → Drawn argument (indent + 2)) :
    Drawn n indent := by
  refine .intro (lines_eq n indent) ?_ (fun line => le_indentation) h
  rw [lines_eq, List.filter_append, filter_blocks,
    List.filter_cons_of_pos (by simpa using indentation_rootLine n.root), List.filter_nil]

/-- Every tree is laid out like this, wherever it stands. -/
theorem drawn (n : Node) (indent : Nat) : Drawn n indent := by
  -- On the tree; the arguments in the source are known from what is shown of the source.
  induction n generalizing indent with
  | image index =>
    exact drawn_of_arguments fun argument h => absurd h List.not_mem_nil
  | frame how source width height ih =>
    obtain ⟨-, -, -, harguments⟩ := ih indent
    refine drawn_of_arguments fun argument h => harguments argument ?_
    exact (List.mem_cons.1 h).resolve_left nofun
  | blur source strength ih =>
    obtain ⟨-, -, -, harguments⟩ := ih indent
    refine drawn_of_arguments fun argument h => harguments argument ?_
    exact (List.mem_cons.1 h).resolve_left nofun
  | overlay source argument ih ih' =>
    obtain ⟨-, -, -, harguments⟩ := ih indent
    refine drawn_of_arguments fun argument' h => ?_
    obtain h | h := List.mem_cons.1 h
    · obtain rfl := Step.overlay.inj h
      exact ih' (indent + 2)
    · exact harguments argument' h

/-! ## Reading a drawing -/

/-- The tag of the last operation of a tree. -/
def tag : Node → Tag
  | image _ => .image
  | frame how _ _ _ => how.tag
  | blur _ _ => .blur
  | overlay _ _ => .overlay

end Node

end Montage
