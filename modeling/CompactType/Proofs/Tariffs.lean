import CompactType.Proofs.Discipline

/-!
# What calls cost and what pays for them

Calls have a price and characters are worth something. If every form is worth its own calls, a text
pays for all calls that are made while it is read. A definition makes two, which the equals sign and
the brace behind it pay together.
-/

set_option autoImplicit false

namespace CompactType.Parse

variable {σ H : Type}

/-- Prices that the characters of each form pay. -/
structure Tariff (H : Type) where
  price : Call H → Nat
  worth : Char → Nat
  scalar (letter : Letter) (h : H) :
    price (.made (.scalar letter.scalar) h) ≤ worth (Symbol.scalar letter).char
  pointer (elem h : H) : price (.made (.pointer elem) h) ≤ worth '*'
  array (elem : H) (count : UInt64) (h : H) : price (.made (.array elem count) h) ≤ worth '['
  vector (elem : H) (count : UInt32) (h : H) : price (.made (.vector elem count) h) ≤ worth '<'
  record (fields : List H) (h : H) : price (.made (.record fields) h) ≤ worth '{'
  function (params : List H) (ret : H) (variadic : Bool) (h : H) :
    price (.made (.function params ret variadic) h) ≤ worth '('
  define (name : String) (h : H) (fields : List H) :
    price (.made (.declare name) h) + price (.body h fields) ≤ worth '=' + worth '{'

namespace Tariff

variable (T : Tariff H)

def cost (calls : List (Call H)) : Nat := calls.foldr (T.price · + ·) 0

def value (text : List Char) : Nat := text.foldr (T.worth · + ·) 0

/-- The text is worth the calls that were added. -/
def Pays (calls : List (Call H)) (text : List Char) (calls' : List (Call H)) : Prop :=
  T.cost calls' ≤ T.cost calls + T.value text

@[simp] theorem cost_cons (call : Call H) (calls : List (Call H)) :
    T.cost (call :: calls) = T.price call + T.cost calls := rfl

@[simp] theorem value_cons (c : Char) (text : List Char) :
    T.value (c :: text) = T.worth c + T.value text := rfl

@[simp] theorem cost_concat (calls : List (Call H)) (call : Call H) :
    T.cost (calls ++ [call]) = T.cost calls + T.price call := by
  induction calls with
  | nil => exact Nat.add_comm (T.price call) 0
  | cons _ calls ih => simp [ih, Nat.add_assoc]

@[simp] theorem value_append (text more : List Char) :
    T.value (text ++ more) = T.value text + T.value more := by
  induction text with
  | nil => exact (Nat.zero_add (T.value more)).symm
  | cons c text ih => simp [ih, Nat.add_assoc]

variable {T} {F : Factory σ H} {config : Config} {store : σ}
  {calls calls₁ calls₂ calls' : List (Call H)} {text more : List Char}

theorem Pays.refl (calls : List (Call H)) (text : List Char) : T.Pays calls text calls :=
  Nat.le_add_right _ _

theorem Pays.append (h : T.Pays calls text calls₁) (h' : T.Pays calls₁ more calls') :
    T.Pays calls (text ++ more) calls' := by
  rw [Pays] at *
  rw [value_append]
  omega

theorem Pays.append_right (h : T.Pays calls text calls') (more : List Char) :
    T.Pays calls (text ++ more) calls' :=
  h.append (.refl calls' more)

theorem Pays.cons (h : T.Pays calls text calls') (c : Char) : T.Pays calls (c :: text) calls' :=
  (Pays.refl calls [c]).append h

theorem Pays.asks (h : T.Pays calls text calls₁) {r : Request H} {handle : H} {c : Char}
    (hPrice : T.price (.made r handle) ≤ T.worth c) (hAsks : Asks F store calls₁ r handle calls') :
    T.Pays calls (c :: text) calls' := by
  rw [Pays] at *
  rw [hAsks.calls_eq, cost_concat, value_cons]
  omega

theorem Pays.heading {run : List Char} {name : String} {handle : H}
    (hDeclare : Asks F store calls (.declare name) handle calls₁)
    (h : T.Pays calls₁ text calls') :
    T.Pays calls ('=' :: (run ++ '{' :: text)) calls' := by
  have hPrice := T.define name handle []
  rw [Pays] at *
  rw [hDeclare.calls_eq, cost_concat] at h
  simp only [value_cons, value_append]
  omega

theorem Pays.define {run : List Char} {name : String} {handle : H} {fields : List H}
    (hDeclare : Asks F store calls (.declare name) handle calls₁) (h : T.Pays calls₁ text calls₂)
    (hFills : Fills F store calls₂ handle fields calls') :
    T.Pays calls ('=' :: (run ++ '{' :: (text ++ ['}']))) calls' := by
  have hPrice := T.define name handle fields
  rw [Pays] at *
  rw [hDeclare.calls_eq, cost_concat] at h
  rw [hFills.calls_eq, cost_concat]
  simp only [value_cons, value_append]
  omega

end Tariff

open Tariff

variable {F : Factory σ H} {config : Config} {store : σ}

mutual

theorem Makes.pays (T : Tariff H) {calls calls' : List (Call H)} {text : List Char} {h : H} :
    Makes F config store calls text h calls' → T.Pays calls text calls'
  | .scalar letter hAsks => (Pays.refl _ []).asks (T.scalar letter h) hAsks
  | .pointer hElem hAsks => (hElem.pays T).asks (T.pointer _ _) hAsks
  | .array hElem _ _ hAsks => ((hElem.pays T).append_right _).asks (T.array _ _ _) hAsks
  | .vector hElem _ _ hAsks => ((hElem.pays T).append_right _).asks (T.vector _ _ _) hAsks
  | .record hBody hAsks => ((hBody.pays T).append_right _).asks (T.record _ _) hAsks
  | .define _ hDeclare hBody hFills => .define hDeclare (hBody.pays T) hFills
  | .reference _ _ => .refl _ _
  | .function hBody _ hAsks => ((hBody.pays T).append_right _).asks (T.function _ _ _ _) hAsks

theorem MakesAll.pays (T : Tariff H) {calls calls' : List (Call H)} {text : List Char}
    {elements : List (Element H)} :
    MakesAll F config store calls text elements calls' → T.Pays calls text calls'
  | .nil _ => .refl _ _
  | .type hHead hTail => (hHead.pays T).append (hTail.pays T)
  | .vararg hTail => (hTail.pays T).cons '&'

end

theorem Stops.pays (T : Tariff H) {calls calls' : List (Call H)} {text : List Char}
    (h : Stops F config store calls text calls') : T.Pays calls text calls' := by
  induction h with
  | trailing | number => exact .refl _ _
  | inside _ hBody _ ih => exact ((hBody.pays T).append ih).cons _
  | definition _ hDeclare hBody _ ih => exact .heading hDeclare ((hBody.pays T).append ih)
  | refused _ hDeclare hBody hFills => exact .define hDeclare (hBody.pays T) hFills

theorem cost_le_value (T : Tariff H) (F : Factory σ H) (config : Config) (spec : String)
    (store : σ) :
    T.cost (Journal.calls (run F config spec store).journal) ≤ T.value spec.toList := by
  obtain ⟨calls, waiting, hCalls, -, -, hEnding⟩ := exists_conforms F config spec store
  have hPays : T.Pays [] spec.toList calls := by
    generalize (run F config spec store).outcome = outcome at hEnding
    cases hEnding with
    | ok _ hMakes => exact hMakes.pays T
    | @error fault s _ _ hStops =>
      obtain ⟨body, more, elements, calls₁, hText, hBody, hMore⟩ := hStops
      rw [← List.take_append_drop (boundary fault s) spec.toList, hText]
      exact ((hBody.pays T).append (hMore.pays T)).append_right _
  rw [hCalls]
  exact hPays.trans_eq (Nat.zero_add _)

section Calls

/-- Every call costs one, and every character pays for one. -/
def callTariff : Tariff H where
  price _ := 1
  worth _ := 1
  scalar _ _ := Nat.le_refl 1
  pointer _ _ := Nat.le_refl 1
  array _ _ _ := Nat.le_refl 1
  vector _ _ _ := Nat.le_refl 1
  record _ _ := Nat.le_refl 1
  function _ _ _ _ := Nat.le_refl 1
  define _ _ _ := Nat.le_refl 2

theorem cost_callTariff (calls : List (Call H)) : callTariff.cost calls = calls.length := by
  induction calls with
  | nil => rfl
  | cons call calls ih =>
    rw [cost_cons, ih]
    exact Nat.add_comm 1 _

theorem value_callTariff (text : List Char) : (callTariff : Tariff H).value text = text.length := by
  induction text with
  | nil => rfl
  | cons c text ih =>
    rw [value_cons, ih]
    exact Nat.add_comm 1 _

theorem length_calls_le (F : Factory σ H) (config : Config) (spec : String) (store : σ) :
    (Journal.calls (run F config spec store).journal).length ≤ spec.toList.length := by
  simpa only [cost_callTariff, value_callTariff] using cost_le_value callTariff F config spec store

end Calls

section Types

/-- Characters that begin a form which can add a type to a table. -/
def Opens (c : Char) : Prop := c ∈ ['*', '[', '<', '(', '{']

instance : DecidablePred Opens := fun c => inferInstanceAs (Decidable (c ∈ _))

/-- Requests other than for scalars may add a type. The brace of a definition pays for its
declaration. -/
def typeTariff : Tariff H where
  price
    | .made (.scalar _) _ | .body .. => 0
    | .made .. => 1
  worth c := if Opens c then 1 else 0
  scalar _ _ := Nat.zero_le _
  pointer _ _ := Nat.le_refl 1
  array _ _ _ := Nat.le_refl 1
  vector _ _ _ := Nat.le_refl 1
  record _ _ := Nat.le_refl 1
  function _ _ _ _ := Nat.le_refl 1
  define _ _ _ := Nat.le_refl 1

theorem value_typeTariff (text : List Char) :
    (typeTariff : Tariff H).value text = text.countP (Opens ·) := by
  induction text with
  | nil => rfl
  | cons c text ih =>
    rw [value_cons, ih, List.countP_cons, Nat.add_comm]
    simp [typeTariff]

end Types

end CompactType.Parse
