import Montage.Number.Index
import Montage.Studio

/-!
# Calling one operation after the other

On a bench the pictures of a store are named by a row of slots, and several slots may name the same
picture. A call gives the pictures that an operation works on by the indexes of their slots, and
what the operation answers is named by a new slot. A call that fails adds none.
-/

namespace Montage

/-- An operation together with what it is applied to. Pictures are given by names. -/
inductive Operation (Name : Type) where
  /-- Copies a picture. -/
  | copy (source : Name)
  /-- Scales a picture by a factor. -/
  | resize (source : Name) (factor : Binary64)
  /-- Blurs a picture with a width. -/
  | blur (source : Name) (sigma : Binary64)
  /-- Draws a picture on the first one. -/
  | overlay (source above : Name)
  /-- Brings a picture to the colours of another one. -/
  | conform (source reference : Name)

namespace Operation

variable {Name Name' Error : Type}

/-- The picture that is worked on. -/
def source : Operation Name → Name
  | copy p => p
  | resize p _ => p
  | blur p _ => p
  | overlay p _ => p
  | conform p _ => p

/-- The operation on the pictures that are found under the names. -/
def resolve (find : Name → Except Error Name') : Operation Name → Except Error (Operation Name')
  | copy p => return copy (← find p)
  | resize p factor => return resize (← find p) factor
  | blur p sigma => return blur (← find p) sigma
  | overlay p above => return overlay (← find p) (← find above)
  | conform p reference => return conform (← find p) (← find reference)

/-- The operation in a store. -/
def action [Imaging] (limit : Int) : Operation Place → Studio.Action Place
  | copy p => Studio.copy p
  | resize p factor => Studio.resize limit p factor
  | blur p sigma => Studio.blur p sigma
  | overlay p above => Studio.overlay p above
  | conform p reference => Studio.conform p reference

end Operation

/-- A store whose pictures are named by slots. -/
structure Bench where
  /-- The store. -/
  studio : Studio
  /-- The places that the slots name. -/
  slots : Array Place

namespace Bench

/-- Why a call fails. -/
inductive Fault where
  /-- An index names no slot. -/
  | slot (fault : Index.Fault)
  /-- The operation fails. -/
  | operation (fault : Raster.Fault)
  deriving DecidableEq

/-- The place that is named by the slot with an index. -/
def find (b : Bench) (index : Int) : Except Index.Fault Place :=
  (Index.place b.slots.size index).map fun i => b.slots[i]

/-- The picture that a slot names. -/
def contents (b : Bench) (i : Nat) : Option Raster :=
  b.slots[i]?.map b.studio.picture

variable [Imaging]

/-- Calls an operation. -/
def call (limit : Int) (b : Bench) (operation : Operation Int) : Except Fault Place × Bench :=
  match operation.resolve b.find with
  | .error e => (.error (.slot e), b)
  | .ok found =>
    match (found.action limit).run b.studio with
    | (.error e, studio) => (.error (.operation e), ⟨studio, b.slots⟩)
    | (.ok p, studio) => (.ok p, ⟨studio, b.slots.push p⟩)

/-- Calls operations one after the other, also after some that have failed. -/
def run (limit : Int) (b : Bench) (operations : List (Operation Int)) : Bench :=
  operations.foldl (fun b operation => (b.call limit operation).2) b

end Bench

end Montage
