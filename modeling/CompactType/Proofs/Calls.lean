import CompactType.Config
import CompactType.Journal

/-!
# Calls to a factory

What a sequence of calls says by itself: the handles that came back, the structs that were
declared and the bodies that were given. From a store the calls lead to another one, where each
request was allowed by the classes that the factory answered at that time.
-/

set_option autoImplicit false

namespace CompactType

variable {σ H : Type}

namespace Request

/-- The rules for what a type is made of, by the classes of its parts. -/
def Allowed (classOf : H → TypeClass) : Request H → Prop
  | scalar _ | pointer _ | declare _ => True
  | array e count => (classOf e).isValue = true ∧ 0 < count
  | vector e count => (classOf e).isLane = true ∧ 0 < count
  | record fields => fields ≠ [] ∧ ∀ f ∈ fields, (classOf f).isValue = true
  | function params ret _ => (∀ p ∈ params, (classOf p).isValue = true) ∧ classOf ret ≠ .function

def name? : Request H → Option String
  | declare name => some name
  | _ => none

end Request

namespace Call

def answer? : Call H → Option H
  | made _ handle => some handle
  | body .. => none

def arguments : Call H → List H
  | made request _ => request.parts
  | body handle fields => handle :: fields

/-- The name and the handle of a struct that gets its body later. -/
def declared? : Call H → Option (String × H)
  | made request handle => request.name?.map fun name => (name, handle)
  | body .. => none

def completed? : Call H → Option H
  | made .. => none
  | body handle _ => some handle

def Allowed (classOf : H → TypeClass) : Call H → Prop
  | made request _ => request.Allowed classOf
  | body _ fields => fields ≠ [] ∧ ∀ f ∈ fields, (classOf f).isValue = true

def apply (F : Factory σ H) (s : σ) : Call H → σ
  | made request _ => (F.make request s).2
  | body handle fields => (F.setBody handle fields s).2

end Call

namespace Factory

/-- The store that calls lead to. -/
def replay (F : Factory σ H) (s : σ) (calls : List (Call H)) : σ :=
  calls.foldl (Call.apply F) s

theorem replay_append (F : Factory σ H) (s : σ) (first second : List (Call H)) :
    F.replay s (first ++ second) = F.replay (F.replay s first) second := by
  simp [replay]

theorem replay_concat (F : Factory σ H) (s : σ) (calls : List (Call H)) (call : Call H) :
    F.replay s (calls ++ [call]) = call.apply F (F.replay s calls) :=
  F.replay_append s calls [call]

end Factory

namespace Parse

/-- The handles that came back, in order. -/
def answers (calls : List (Call H)) : List H := calls.filterMap Call.answer?

/-- The structs that were declared, in order. -/
def declarations (calls : List (Call H)) : List (String × H) := calls.filterMap Call.declared?

/-- The structs that were given a body, in order. -/
def completions (calls : List (Call H)) : List H := calls.filterMap Call.completed?

section Append

variable (calls more : List (Call H)) (r : Request H) (handle : H) (fields : List H)

theorem answers_append : answers (calls ++ more) = answers calls ++ answers more :=
  List.filterMap_append

theorem declarations_append :
    declarations (calls ++ more) = declarations calls ++ declarations more :=
  List.filterMap_append

theorem completions_append : completions (calls ++ more) = completions calls ++ completions more :=
  List.filterMap_append

@[simp] theorem answers_made : answers (calls ++ [.made r handle]) = answers calls ++ [handle] :=
  answers_append calls _

@[simp] theorem answers_body : answers (calls ++ [.body handle fields]) = answers calls := by
  simp [answers, Call.answer?]

@[simp] theorem declarations_body :
    declarations (calls ++ [.body handle fields]) = declarations calls := by
  simp [declarations, Call.declared?]

@[simp] theorem declarations_declare (name : String) :
    declarations (calls ++ [.made (.declare name) handle]) =
      declarations calls ++ [(name, handle)] :=
  declarations_append calls _

theorem declarations_made {r : Request H} (h : r.name? = none) :
    declarations (calls ++ [.made r handle]) = declarations calls := by
  simp [declarations, Call.declared?, h]

@[simp] theorem completions_made :
    completions (calls ++ [.made r handle]) = completions calls := by
  simp [completions, Call.completed?]

@[simp] theorem completions_body :
    completions (calls ++ [.body handle fields]) = completions calls ++ [handle] :=
  completions_append calls _

end Append

theorem mem_answers_of_mem_declarations {calls : List (Call H)} {name : String} {handle : H}
    (h : (name, handle) ∈ declarations calls) : handle ∈ answers calls := by
  obtain ⟨call, hCall, hDeclared⟩ := List.mem_filterMap.mp h
  refine List.mem_filterMap.mpr ⟨call, hCall, ?_⟩
  cases call with
  | made r handle' =>
    obtain ⟨_, -, hEq⟩ := Option.map_eq_some_iff.mp hDeclared
    cases hEq
    rfl
  | body => cases hDeclared

theorem answers_mono {calls calls' : List (Call H)} (h : calls <+: calls') {handle : H}
    (hMem : handle ∈ answers calls) : handle ∈ answers calls' := by
  obtain ⟨more, rfl⟩ := h
  exact answers_append calls more ▸ List.mem_append_left _ hMem

/-- After the calls the factory is asked for an allowed type, for which it returns the handle. -/
structure Asks (F : Factory σ H) (store : σ) (calls : List (Call H)) (r : Request H) (handle : H)
    (calls' : List (Call H)) : Prop where
  allowed : r.Allowed (F.classOf (F.replay store calls))
  answer_eq : (F.make r (F.replay store calls)).1 = handle
  calls_eq : calls' = calls ++ [.made r handle]

/-- After the calls a declared struct gets a body of types with values. -/
structure Fills (F : Factory σ H) (store : σ) (calls : List (Call H)) (handle : H)
    (fields : List H) (calls' : List (Call H)) : Prop where
  ne_nil : fields ≠ []
  isValue : ∀ f ∈ fields, (F.classOf (F.replay store calls) f).isValue = true
  calls_eq : calls' = calls ++ [.body handle fields]

/-- The last call was a body, which the factory refused. -/
def Refused (F : Factory σ H) (store : σ) (calls : List (Call H)) (refusal : Refusal) : Prop :=
  ∃ before handle fields, calls = before ++ [.body handle fields] ∧
    (F.setBody handle fields (F.replay store before)).1 = .error refusal

end Parse

end CompactType
