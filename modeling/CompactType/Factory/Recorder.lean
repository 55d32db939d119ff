import CompactType.Factory

/-!
# A factory that shares nothing

Every request gets the next handle, counted from zero, and keeps the class of what was asked for.
The classes that the factory answers and the fate of one body can be prescribed.
-/

set_option autoImplicit false

namespace CompactType

structure Recorder where
  classes : Array TypeClass
  bodies : Nat
deriving DecidableEq, Repr, Inhabited

namespace Recorder

def empty : Recorder := ⟨#[], 0⟩

structure Plan where
  /-- Classes to answer in place of the natural ones. -/
  classOf? : Nat → Option TypeClass := fun _ => none
  /-- A body, counted from zero, that is refused. -/
  refuses : Option (Nat × Refusal) := none

def make (r : Recorder) (request : Request Nat) : Nat × Recorder :=
  (r.classes.size, { r with classes := r.classes.push request.typeClass })

def setBody (plan : Plan) (r : Recorder) : Except Refusal Unit × Recorder :=
  let after := { r with bodies := r.bodies + 1 }
  match plan.refuses with
  | some (n, refusal) => (if n = r.bodies then .error refusal else .ok (), after)
  | none => (.ok (), after)

def classOf (plan : Plan) (r : Recorder) (handle : Nat) : TypeClass :=
  (plan.classOf? handle).getD (r.classes[handle]?.getD .void)

def factory (plan : Plan) : Factory Recorder Nat where
  make request r := r.make request
  setBody _ _ r := r.setBody plan
  classOf := classOf plan

end Recorder

end CompactType
