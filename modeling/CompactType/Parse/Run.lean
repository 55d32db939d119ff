import CompactType.Parse.Forms

/-!
# Parsing a specification

A whole text is read as a single type. The nesting left is passed down through the forms and is
checked before anything else, at the end of the text too.
-/

set_option autoImplicit false

namespace CompactType.Parse

variable {σ H : Type}

def element (F : Factory σ H) (config : Config) : Nat → Parser σ H (Option (Element H))
  | 0 => failHere (.nestingTooDeep config.maxDepth)
  | depth + 1 => dispatch F config (element F config depth)

def whole (F : Factory σ H) (config : Config) : Parser σ H H := do
  let handle ← elementType (element F config config.maxDepth) .emptySpec
  unless ← atEnd do failHere .trailingInput
  return handle

def start (spec : String) (store : σ) : State σ H where
  cursor := .ofList spec.toList
  opened := #[]
  store
  journal := #[.begun spec]

def ending (fault : Fault) : Event H :=
  if fault.cause = .trailingInput then .trailing fault.pos else .rejected fault.cause

structure Run (σ H : Type) where
  outcome : Except Diagnostic H
  store : σ
  journal : Journal H

def run (F : Factory σ H) (config : Config) (spec : String) (store : σ) : Run σ H :=
  match (whole F config).run (start spec store) with
  | .ok handle s => ⟨.ok handle, s.store, s.journal.push (.accepted s.opened.size)⟩
  | .error fault s => ⟨.error ⟨fault, spec⟩, s.store, s.journal.push (ending fault)⟩

theorem spec_eq_of_error {F : Factory σ H} {config : Config} {spec : String} {store : σ}
    {diagnostic : Diagnostic} (h : (run F config spec store).outcome = .error diagnostic) :
    diagnostic.spec = spec := by
  unfold run at h
  split at h
  · cases h
  · cases h
    rfl

theorem element_zero (F : Factory σ H) (config : Config) :
    element F config 0 = failHere (.nestingTooDeep config.maxDepth) := rfl

theorem element_succ (F : Factory σ H) (config : Config) (depth : Nat) :
    element F config (depth + 1) = dispatch F config (element F config depth) := rfl

end CompactType.Parse
