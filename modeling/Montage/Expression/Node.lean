import Montage.Tag

/-!
# Operation trees

A compiled expression describes a tree: at its leaves input images, above them the operations. The
words of a tree are its postfix form, each operation after what it is applied to. `Step` is one
operation apart from its source, with its argument left open, since the argument of an overlay is a
tree while an expression is read and a picture while it is run.
-/

namespace Montage

/-- How a picture is brought to a box. -/
inductive Framing where
  /-- It is shrunk until it lies inside the box. -/
  | fit
  /-- It is scaled until it covers the box. -/
  | fill
  deriving DecidableEq, Repr

/-- The tag of a framing. -/
def Framing.tag : Framing → Tag
  | fit => .fit
  | fill => .fill

/-- One operation, apart from the picture that it is applied to. -/
inductive Step (α : Type) where
  /-- Bring the picture to a box. -/
  | frame (how : Framing) (width height : Int)
  /-- Blur the picture, with a strength in hundredths. -/
  | blur (strength : Int)
  /-- Draw the argument on the picture. -/
  | overlay (argument : α)

/-- A tree of operations. -/
inductive Node where
  /-- An input image. -/
  | image (index : Int)
  /-- A picture brought to a box. -/
  | frame (how : Framing) (source : Node) (width height : Int)
  /-- A blurred picture. -/
  | blur (source : Node) (strength : Int)
  /-- A picture with another one drawn on it. -/
  | overlay (source argument : Node)
  deriving DecidableEq, Repr

namespace Node

/-- A step applied to a tree. -/
def apply (source : Node) : Step Node → Node
  | .frame how width height => .frame how source width height
  | .blur strength => .blur source strength
  | .overlay argument => .overlay source argument

/-- The words of a tree, in postfix order. -/
def encode : Node → List Int
  | image index => [index, Tag.image.word]
  | frame how source width height => source.encode ++ [width, height, how.tag.word]
  | blur source strength => source.encode ++ [strength, Tag.blur.word]
  | overlay source argument => source.encode ++ argument.encode ++ [Tag.overlay.word]

/-- The indexes of the input images of a tree. -/
def images : Node → List Int
  | image index => [index]
  | frame _ source _ _ => source.images
  | blur source _ => source.images
  | overlay source argument => source.images ++ argument.images

/-- The numbers that the steps of a tree are given. -/
def operands : Node → List Int
  | image _ => []
  | frame _ source width height => source.operands ++ [width, height]
  | blur source strength => source.operands ++ [strength]
  | overlay source argument => source.operands ++ argument.operands

/-- How many overlays are open at a time at most while the tree's expression is read. -/
def depth : Node → Nat
  | image _ => 0
  | frame _ source _ _ => source.depth
  | blur source _ => source.depth
  | overlay source argument => max source.depth (argument.depth + 1)

/-- No tree has fewer than two words. -/
theorem two_le_length_encode (n : Node) : 2 ≤ n.encode.length := by
  induction n with
  | image => simp [encode]
  | frame _ _ _ _ ih => simp [encode]
  | blur _ _ ih => simp [encode]
  | overlay _ _ ih _ => simp [encode]; omega

end Node

end Montage
