import CompactType.Parse.Forms
import CompactType.Proofs.Calls
import CompactType.Proofs.Grammar

/-!
# Texts and the calls made for them

Which calls a factory receives while a text is read. Whatever the factory answers, a text that is
read as a type makes the calls of the types inside it, from left to right, and then its own. Where
reading stops early, the calls of what was complete by then remain.
-/

set_option autoImplicit false

namespace CompactType.Parse

variable {σ H : Type}

/-- What the elements before the returned type of a function amount to. -/
inductive Amount (classOf : H → TypeClass) : List (Element H) → List H → Bool → Prop where
  | params {handles : List H} :
    handles ≠ [] → Amount classOf (handles.map .type) handles false
  | variadic {handles : List H} : Amount classOf (handles.map .type ++ [.vararg]) handles true
  | void {handle : H} : classOf handle = .void → Amount classOf [.type handle] [] false
  | voidVariadic {handle : H} :
    classOf handle = .void → Amount classOf [.type handle, .vararg] [] true

/-- Characters that stand behind an element or inside a number. -/
def Trailing (c : Char) : Prop := c.isDigit = true ∨ c = 'x' ∨ c = ']'

section Relations

variable (F : Factory σ H) (config : Config) (store : σ)

mutual

/-- `Makes F config store calls text handle calls'`: after the calls, the text is read as a type,
which the handle stands for, and there are more calls then. -/
inductive Makes : List (Call H) → List Char → H → List (Call H) → Prop where
  | scalar {calls calls' : List (Call H)} {h : H} (letter : Letter) :
    Asks F store calls (.scalar letter.scalar) h calls' →
    Makes calls [(Symbol.scalar letter).char] h calls'
  | pointer {calls calls₁ calls' : List (Call H)} {elem : List Char} {e h : H} :
    Makes calls elem e calls₁ → Asks F store calls₁ (.pointer e) h calls' →
    Makes calls ('*' :: elem) h calls'
  | array {calls calls₁ calls' : List (Call H)} {elem run : List Char} {count : Nat} {e h : H} :
    Makes calls elem e calls₁ → Numeral run count → count < UInt64.size →
    Asks F store calls₁ (.array e (UInt64.ofNat count)) h calls' →
    Makes calls ('[' :: (elem ++ 'x' :: (run ++ [']']))) h calls'
  | vector {calls calls₁ calls' : List (Call H)} {elem run : List Char} {count : Nat} {e h : H} :
    Makes calls elem e calls₁ → Numeral run count → count < UInt32.size →
    Asks F store calls₁ (.vector e (UInt32.ofNat count)) h calls' →
    Makes calls ('<' :: (elem ++ 'x' :: (run ++ ['>']))) h calls'
  | record {calls calls₁ calls' : List (Call H)} {body : List Char} {fields : List H} {h : H} :
    MakesAll calls body (fields.map .type) calls₁ → Asks F store calls₁ (.record fields) h calls' →
    Makes calls ('{' :: (body ++ ['}'])) h calls'
  /-- The struct is declared before its body is read and completed after that. -/
  | define {calls calls₁ calls₂ calls' : List (Call H)} {run body : List Char} {fields : List H}
    {h : H} :
    Numeral run (declarations calls).length →
    Asks F store calls (.declare (config.structName (declarations calls).length)) h calls₁ →
    MakesAll calls₁ body (fields.map .type) calls₂ → Fills F store calls₂ h fields calls' →
    Makes calls ('=' :: (run ++ '{' :: (body ++ ['}']))) h calls'
  /-- A number stands for the handle that the declaration with this number got. -/
  | reference {calls : List (Call H)} {run : List Char} {number : Nat} {name : String} {h : H} :
    Numeral run number → (declarations calls)[number]? = some (name, h) →
    Makes calls ('%' :: run) h calls
  | function {calls calls₁ calls' : List (Call H)} {body : List Char}
    {before : List (Element H)} {params : List H} {ret h : H} {variadic : Bool} :
    MakesAll calls body (before ++ [.type ret]) calls₁ →
    Amount (F.classOf (F.replay store calls₁)) before params variadic →
    Asks F store calls₁ (.function params ret variadic) h calls' →
    Makes calls ('(' :: (body ++ [')'])) h calls'

/-- Elements one after another, with nothing in between. -/
inductive MakesAll : List (Call H) → List Char → List (Element H) → List (Call H) → Prop where
  | nil (calls : List (Call H)) : MakesAll calls [] [] calls
  | type {calls calls₁ calls' : List (Call H)} {head tail : List Char} {h : H}
    {elements : List (Element H)} :
    Makes calls head h calls₁ → MakesAll calls₁ tail elements calls' →
    MakesAll calls (head ++ tail) (.type h :: elements) calls'
  | vararg {calls calls' : List (Call H)} {tail : List Char} {elements : List (Element H)} :
    MakesAll calls tail elements calls' → MakesAll calls ('&' :: tail) (.vararg :: elements) calls'

end

/-- `Stops F config store calls text calls'`: after the calls, the text is read as the beginning of
an element. Then reading stops, and there are more calls. -/
inductive Stops : List (Call H) → List Char → List (Call H) → Prop where
  | trailing {calls : List (Call H)} {text : List Char} :
    (∀ c ∈ text, Trailing c) → Stops calls text calls
  /-- Inside a form some elements are complete, and the next one may have begun. -/
  | inside {calls calls₁ calls' : List (Call H)} {opening : Char} {body more : List Char}
    {elements : List (Element H)} :
    opening ∈ ['*', '[', '<', '{', '('] → MakesAll F config store calls body elements calls₁ →
    Stops calls₁ more calls' → Stops calls (opening :: (body ++ more)) calls'
  | number {calls : List (Call H)} {marker : Char} {run : List Char} :
    marker ∈ ['=', '%'] → (∀ c ∈ run, c.isDigit = true) → Stops calls (marker :: run) calls
  /-- Inside the body of a definition, whose struct is declared already. -/
  | definition {calls calls₁ calls₂ calls' : List (Call H)} {run body more : List Char}
    {elements : List (Element H)} {h : H} :
    Numeral run (declarations calls).length →
    Asks F store calls (.declare (config.structName (declarations calls).length)) h calls₁ →
    MakesAll F config store calls₁ body elements calls₂ → Stops calls₂ more calls' →
    Stops calls ('=' :: (run ++ '{' :: (body ++ more))) calls'
  /-- The body of a definition is complete, but the factory refuses it. -/
  | refused {calls calls₁ calls₂ calls' : List (Call H)} {run body : List Char} {fields : List H}
    {h : H} {refusal : Refusal} :
    Numeral run (declarations calls).length →
    Asks F store calls (.declare (config.structName (declarations calls).length)) h calls₁ →
    MakesAll F config store calls₁ body (fields.map .type) calls₂ →
    Fills F store calls₂ h fields calls' →
    Refused F store calls' refusal → Stops calls ('=' :: (run ++ '{' :: (body ++ ['}']))) calls'

/-- Some elements are read, and then reading stops. -/
def StopsWithin (calls : List (Call H)) (text : List Char) (calls' : List (Call H)) : Prop :=
  ∃ body more elements calls₁, text = body ++ more ∧
    MakesAll F config store calls body elements calls₁ ∧ Stops F config store calls₁ more calls'

/-- What a parser for one element reads. At the end of the text it reads nothing. -/
def MakesElement (calls : List (Call H)) (text : List Char) :
    Option (Element H) → List (Call H) → Prop
  | some (.type h), calls' => Makes F config store calls text h calls'
  | some .vararg, calls' => text = ['&'] ∧ calls' = calls
  | none, calls' => text = [] ∧ calls' = calls

end Relations

section Rules

variable {F : Factory σ H} {config : Config} {store : σ} {calls calls₁ calls' : List (Call H)}

theorem MakesAll.cons {e : Element H} {elements : List (Element H)} {head tail : List Char}
    (hHead : MakesElement F config store calls head (some e) calls₁)
    (hTail : MakesAll F config store calls₁ tail elements calls') :
    MakesAll F config store calls (head ++ tail) (e :: elements) calls' := by
  cases e with
  | type h => exact .type hHead hTail
  | vararg =>
    obtain ⟨rfl, rfl⟩ := hHead
    exact .vararg hTail

theorem Makes.all {h : H} {text : List Char} (hMakes : Makes F config store calls text h calls') :
    MakesAll F config store calls text [.type h] calls' :=
  List.append_nil text ▸ .type hMakes (.nil _)

end Rules

end CompactType.Parse
