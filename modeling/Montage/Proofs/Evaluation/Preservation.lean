import Montage.Imaging.Standard
import Montage.Proofs.Evaluation.Store
import Montage.Proofs.Expression.Compilation

/-!
# Compilation preserves meaning

A compiled expression is evaluated by reading its words from the end, on pictures in a store that
are changed in place. What comes out is what the text means when it is read from left to right and
pictures are values (`evaluate_compile`): the compilation answers the words of the pruned tree,
running them draws that tree, and the store draws what values do.
-/

namespace Montage.Studio

open Effect

variable {limit : Int} {images : Array Place} {s : Studio}

/-- Evaluating the words of a tree draws the tree in a place that was free. -/
theorem draws_evaluate [Imaging] (n : Node) (himages : ∀ p ∈ images, p < s.pictures.size) :
    Draws s.pictures.size s (evaluate limit images n.encode)
      (value (n.draw (Raster.values limit) (images.map s.picture))) := by
  rw [evaluate, Backend.evaluate_encode]
  exact (draws_node limit n s himages).timed _

/-- Compilation preserves meaning. For a text that is compiled and images that lie in the store, let
the syntax tree of the text be drawn from left to right with values. If that gives a picture, then
so does evaluating the words, and it is the same one. Conversely, what evaluating the words gives is
what the syntax tree gives without the part of each chain before its last image reference. -/
theorem evaluate_compile [Imaging] {t : Task} {capacity : Int} {e : Encoded}
    (hcompile : (compile t capacity).result = .ok e) (himages : ∀ p ∈ images, p < s.pictures.size) :
    Chain.Grammatical t.expression ∧ ∀ c : Chain, c.text = t.expression.toList →
      (∀ r, value (c.draw (Raster.values limit) (images.map s.picture)) = .ok r →
        ∃ p s', (evaluate limit images e.words.toList).run s = (.ok p, s') ∧ s'.picture p = r) ∧
      ∀ p s', (evaluate limit images e.words.toList).run s = (.ok p, s') →
        value (c.trim.draw (Raster.values limit) (images.map s.picture)) = .ok (s'.picture p) := by
  obtain ⟨c₀, htext₀, -⟩ := exists_of_compile_eq_ok hcompile
  refine ⟨⟨c₀, htext₀⟩, fun c htext => ?_⟩
  -- The compilation has answered the words of the pruned tree.
  obtain rfl := eq_of_compile_eq_ok hcompile c htext
  have hdraws : Draws s.pictures.size s (evaluate limit images c.prune.encode)
      (value (c.prune.draw (Raster.values limit) (images.map s.picture))) :=
    draws_evaluate c.prune himages
  obtain ⟨result, s₁, hrun, -, hholds⟩ := hdraws
  refine ⟨fun r hdraw => ?_, fun p s' hevaluate => ?_⟩
  · rw [Chain.value_draw_trim_eq_ok_iff.1 (Chain.value_draw_trim hdraw)] at hholds
    cases hholds with
    | ok => exact ⟨_, s₁, hrun, rfl⟩
  · obtain ⟨rfl, rfl⟩ := Prod.mk.inj (hrun.symm.trans hevaluate)
    refine Chain.value_draw_trim_eq_ok_iff.2 ?_
    generalize value (c.prune.draw (Raster.values limit) (images.map s.picture)) = answer
      at hholds ⊢
    cases hholds with
    | ok => rfl

/-- An answer is a result where the result can be taken from it. -/
theorem eq_ok_of_toOption {Error Result : Type} {answer : Except Error Result} {r : Result}
    (h : answer.toOption = some r) : answer = .ok r := by
  cases answer with
  | error e => cases h
  | ok a => exact congrArg _ (Option.some.inj h)

attribute [local instance] Imaging.standard

/-- A white pixel on a black one, where the argument of the overlay names another image first. -/
theorem evaluate_compile_overlay :
    (compile ⟨"0.pi(1.2)", ⟨some 3, 64, 2147483647⟩⟩ 1024).result =
        .ok ⟨#[0, 4, 2, 4, 2], "0.pi(1.2)"⟩ ∧
      ∃ p s', (evaluate 100 #[0, 0, 1] [0, 4, 2, 4, 2]).run
          ⟨#[.generate 1 1 none fun _ _ _ => 0, .generate 1 1 none fun _ _ _ => 255], #[]⟩ =
            (.ok p, s') ∧
        s'.picture p = .generate 1 1 none fun _ _ _ => 255 := by
  have htext : (Chain.overlay (.root 0) (.image (.root 1) 2)).text = "0.pi(1.2)".toList := rfl
  have hcompile : (compile ⟨"0.pi(1.2)", ⟨some 3, 64, 2147483647⟩⟩ 1024).result =
      .ok ⟨#[0, 4, 2, 4, 2], "0.pi(1.2)"⟩ :=
    result_compile_eq_map (.overlay (.root 0) (.image (.root 1) 2)) htext (by decide)
  have himages : ∀ p ∈ #[0, 0, 1], p < 2 := by decide
  refine ⟨hcompile, ((evaluate_compile hcompile himages).2 _ htext).1 _ ?_⟩
  refine eq_ok_of_toOption ?_
  decide +kernel

end Montage.Studio
