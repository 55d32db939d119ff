import CompactType.Proofs.Discipline

/-!
# Open braces

Which braces are open behind a text can be seen from its characters alone. The open braces of
definitions belong to the structs that wait for a body.
-/

set_option autoImplicit false

namespace CompactType

/-- The braces open behind a text, the innermost first. Those of definitions bear the number of
the definition; a heading is the text between the sign and the brace of one. -/
structure Braces where
  opened : Nat
  heading : Bool
  stack : List (Option Nat)

namespace Braces

def step (b : Braces) (c : Char) : Braces :=
  if c = '=' then { b with heading := true }
  else if c = '{' then
    if b.heading then ⟨b.opened + 1, false, some b.opened :: b.stack⟩
    else { b with stack := none :: b.stack }
  else if c = '}' then { b with stack := b.stack.tail }
  else b

def scan (b : Braces) (text : List Char) : Braces := text.foldl step b

def start : Braces := ⟨0, false, []⟩

/-- The numbers of the definitions whose opening brace is in the text but not the closing one. -/
def unclosed (text : List Char) : List Nat := (start.scan text).stack.filterMap id

@[simp] theorem scan_nil (b : Braces) : b.scan [] = b := rfl

@[simp] theorem scan_cons (b : Braces) (c : Char) (text : List Char) :
    b.scan (c :: text) = (b.step c).scan text := rfl

@[simp] theorem scan_append (b : Braces) (text more : List Char) :
    b.scan (text ++ more) = (b.scan text).scan more :=
  List.foldl_append

/-- Characters that have nothing to do with braces. -/
def Plain (c : Char) : Prop := c ≠ '=' ∧ c ≠ '{' ∧ c ≠ '}'

instance : DecidablePred Plain := fun c => inferInstanceAs (Decidable (c ≠ '=' ∧ c ≠ '{' ∧ c ≠ '}'))

theorem Plain.step {c : Char} (h : Plain c) (b : Braces) : b.step c = b := by
  simp [Braces.step, h.1, h.2.1, h.2.2]

theorem scan_of_plain {text : List Char} (h : ∀ c ∈ text, Plain c) (b : Braces) :
    b.scan text = b := by
  induction text with
  | nil => rfl
  | cons c text ih =>
    rw [scan_cons, (h c List.mem_cons_self).step]
    exact ih fun d hd => h d (List.mem_cons_of_mem c hd)

theorem count_of_plain {text : List Char} (h : ∀ c ∈ text, Plain c) : text.count '=' = 0 :=
  List.count_eq_zero.mpr fun hMem => (h _ hMem).1 rfl

theorem plain_of_trailing {c : Char} (h : Parse.Trailing c) : Plain c := by
  obtain h | rfl | rfl := h
  · refine ⟨?_, ?_, ?_⟩ <;> (rintro rfl; exact absurd h (by decide))
  · decide
  · decide

theorem plain_scalar (letter : Letter) : Plain (Symbol.scalar letter).char := by
  cases letter <;> decide

theorem scan_heading {run : List Char} (h : ∀ c ∈ run, Plain c) (n : Nat)
    (stack : List (Option Nat)) (more : List Char) :
    scan ⟨n, false, stack⟩ ('=' :: (run ++ '{' :: more)) =
      scan ⟨n + 1, false, some n :: stack⟩ more := by
  simp [step, scan_of_plain h]

/-- All braces that the text opens are closed in it, and as many structs were declared in between
as it has definitions. -/
structure Balanced {H : Type} (calls calls' : List (Call H)) (text : List Char) : Prop where
  scan_eq : ∀ n stack, scan ⟨n, false, stack⟩ text = ⟨n + text.count '=', false, stack⟩
  length_eq : (Parse.declarations calls').length =
    (Parse.declarations calls).length + text.count '='

end Braces

theorem Numeral.plain {run : List Char} {value : Nat} (h : Numeral run value) :
    ∀ c ∈ run, Braces.Plain c :=
  fun c hc => Braces.plain_of_trailing (.inl (h.isDigit c hc))

namespace Parse

open Braces

variable {σ H : Type} {F : Factory σ H} {config : Config} {store : σ}
  {calls calls₁ calls' : List (Call H)} {text more : List Char}

theorem Asks.declarations_eq {r : Request H} {h : H} (hAsks : Asks F store calls r h calls')
    (hName : r.name? = none) : declarations calls' = declarations calls := by
  rw [hAsks.calls_eq, declarations_made _ _ hName]

theorem Asks.declarations_declare {name : String} {h : H}
    (hAsks : Asks F store calls (.declare name) h calls') :
    declarations calls' = declarations calls ++ [(name, h)] := by
  rw [hAsks.calls_eq, CompactType.Parse.declarations_declare]

theorem Fills.declarations_eq {fields : List H} {h : H}
    (hFills : Fills F store calls h fields calls') : declarations calls' = declarations calls := by
  rw [hFills.calls_eq, declarations_body]

section Balance

theorem balanced_of_plain (h : ∀ c ∈ text, Plain c) : Balanced calls calls text where
  scan_eq n stack := by
    rw [scan_of_plain h, count_of_plain h]
    rfl
  length_eq := by rw [count_of_plain h, Nat.add_zero]

theorem balanced_append (h : Balanced calls calls₁ text) (h' : Balanced calls₁ calls' more) :
    Balanced calls calls' (text ++ more) where
  scan_eq n stack := by rw [scan_append, h.scan_eq, h'.scan_eq, List.count_append, Nat.add_assoc]
  length_eq := by rw [h'.length_eq, h.length_eq, List.count_append, Nat.add_assoc]

theorem balanced_cons {c : Char} (hc : Plain c) (h : Balanced calls calls' text) :
    Balanced calls calls' (c :: text) := by
  have hHead : Balanced calls calls [c] := balanced_of_plain (by simpa using hc)
  exact balanced_append hHead h

theorem balanced_braces (h : Balanced calls calls' text) :
    Balanced calls calls' ('{' :: (text ++ ['}'])) where
  scan_eq n stack := by simp [step, h.scan_eq]
  length_eq := by simp [h.length_eq]

theorem Asks.balanced {r : Request H} {h : H} (hAsks : Asks F store calls₁ r h calls')
    (hName : r.name? = none) (hText : Balanced calls calls₁ text) :
    Balanced calls calls' text :=
  ⟨hText.scan_eq, by rw [hAsks.declarations_eq hName, hText.length_eq]⟩

theorem balanced_define {calls₂ : List (Call H)} {run : List Char} {name : String} {h : H}
    {fields : List H} (hRun : ∀ c ∈ run, Plain c)
    (hDeclare : Asks F store calls (.declare name) h calls₁) (hBody : Balanced calls₁ calls₂ text)
    (hFills : Fills F store calls₂ h fields calls') :
    Balanced calls calls' ('=' :: (run ++ '{' :: (text ++ ['}']))) := by
  have hCount : ('=' :: (run ++ '{' :: (text ++ ['}']))).count '=' = text.count '=' + 1 := by
    simp [count_of_plain hRun]
  constructor
  · intro n stack
    rw [scan_heading hRun, scan_append, hBody.scan_eq, hCount, Nat.add_right_comm n, Nat.add_assoc]
    rfl
  · rw [hFills.declarations_eq, hBody.length_eq, hDeclare.declarations_declare, hCount,
      List.length_append]
    simp only [List.length_singleton]
    omega

theorem plain_crossed {run : List Char} {value : Nat} {closing : Char} (h : Numeral run value)
    (hClosing : Plain closing) : ∀ c ∈ 'x' :: (run ++ [closing]), Plain c := by
  intro c hc
  simp only [List.mem_cons, List.mem_append, List.not_mem_nil, or_false] at hc
  obtain rfl | hc | rfl := hc
  · decide
  · exact h.plain c hc
  · exact hClosing

mutual

theorem Makes.balanced {calls calls' : List (Call H)} {text : List Char} {h : H} :
    Makes F config store calls text h calls' → Balanced calls calls' text
  | .scalar letter hAsks =>
    hAsks.balanced rfl (balanced_of_plain (by simpa using plain_scalar letter))
  | .pointer hElem hAsks => hAsks.balanced rfl (balanced_cons (by decide) hElem.balanced)
  | .array hElem hNumeral _ hAsks | .vector hElem hNumeral _ hAsks =>
    hAsks.balanced rfl (balanced_cons (by decide)
      (balanced_append hElem.balanced (balanced_of_plain (plain_crossed hNumeral (by decide)))))
  | .record hBody hAsks => hAsks.balanced rfl (balanced_braces hBody.balanced)
  | .define hNumeral hDeclare hBody hFills =>
    balanced_define hNumeral.plain hDeclare hBody.balanced hFills
  | .reference hNumeral _ => balanced_cons (by decide) (balanced_of_plain hNumeral.plain)
  | .function hBody _ hAsks =>
    hAsks.balanced rfl (balanced_cons (by decide)
      (balanced_append hBody.balanced (balanced_cons (by decide) (balanced_of_plain nofun))))

theorem MakesAll.balanced {calls calls' : List (Call H)} {text : List Char}
    {elements : List (Element H)} :
    MakesAll F config store calls text elements calls' → Balanced calls calls' text
  | .nil _ => balanced_of_plain nofun
  | .type hHead hTail => balanced_append hHead.balanced hTail.balanced
  | .vararg hTail => balanced_cons (by decide) hTail.balanced

end

end Balance

section Unclosed

/-- The struct with this number was declared with this handle. -/
def Numbered (calls : List (Call H)) (number : Nat) (h : H) : Prop :=
  ∃ name, (declarations calls)[number]? = some (name, h)

theorem numbered_mono (h : calls <+: calls') {number : Nat} {handle : H}
    (hNumbered : Numbered calls number handle) : Numbered calls' number handle := by
  obtain ⟨name, hName⟩ := hNumbered
  obtain ⟨rest, rfl⟩ := h
  refine ⟨name, ?_⟩
  rw [declarations_append, List.getElem?_append_left (List.getElem?_eq_some_iff.mp hName).1, hName]

/-- Reading stopped behind the text, and the waiting structs are those of its open braces. -/
structure LeavesOpen (F : Factory σ H) (config : Config) (store : σ) (calls : List (Call H))
    (waiting : List H) (text : List Char) (calls' : List (Call H)) : Prop where
  isPrefix : calls <+: calls'
  exists_open : ∃ waiting' numbers, Conforms F config store calls' (waiting' ++ waiting) ∧
    List.Forall₂ (Numbered calls') numbers waiting' ∧
    ∀ stack, ∃ opened, opened.filterMap id = numbers ∧
      (scan ⟨(declarations calls).length, false, stack⟩ text).stack = opened ++ stack

theorem MakesAll.leavesOpen {body : List Char} {elements : List (Element H)} {waiting : List H}
    (hBody : MakesAll F config store calls body elements calls₁)
    (hMore : LeavesOpen F config store calls₁ waiting more calls') :
    LeavesOpen F config store calls waiting (body ++ more) calls' where
  isPrefix := hBody.keeps.1.isPrefix.trans hMore.isPrefix
  exists_open := by
    obtain ⟨waiting', numbers, hConforms, hNumbered, hStack⟩ := hMore.exists_open
    refine ⟨waiting', numbers, hConforms, hNumbered, fun stack => ?_⟩
    rw [scan_append, hBody.balanced.scan_eq, ← hBody.balanced.length_eq]
    exact hStack stack

theorem Stops.leavesOpen {waiting : List H} (h : Stops F config store calls text calls')
    (hConforms : Conforms F config store calls waiting) :
    LeavesOpen F config store calls waiting text calls' := by
  induction h generalizing waiting with
  | trailing hTrailing =>
    refine ⟨List.prefix_rfl, [], [], hConforms, .nil, fun stack => ⟨[], rfl, ?_⟩⟩
    rw [scan_of_plain fun c hc => plain_of_trailing (hTrailing c hc)]
    rfl
  | @inside calls calls₁ calls' opening body more elements hOpening hBody hMore ih =>
    obtain ⟨hPrefix, waiting', numbers, hConforms', hNumbered, hStack⟩ :=
      hBody.leavesOpen (ih (hBody.keeps.1.conforms _ hConforms))
    refine ⟨hPrefix, waiting', numbers, hConforms', hNumbered, fun stack => ?_⟩
    obtain hPlain | rfl : Plain opening ∨ opening = '{' := by
      revert hOpening
      simp only [List.mem_cons, List.not_mem_nil, or_false]
      rintro (rfl | rfl | rfl | rfl | rfl) <;> decide
    · rw [scan_cons, hPlain.step]
      exact hStack stack
    · obtain ⟨opened, rfl, hOpened⟩ := hStack (none :: stack)
      refine ⟨opened ++ [none], by simp, ?_⟩
      rw [List.append_assoc]
      exact hOpened
  | @number calls marker run hMarker hRun =>
    refine ⟨List.prefix_rfl, [], [], hConforms, .nil, fun stack => ⟨[], rfl, ?_⟩⟩
    rw [scan_cons, scan_of_plain fun c hc => plain_of_trailing (.inl (hRun c hc))]
    simp only [List.mem_cons, List.not_mem_nil, or_false] at hMarker
    obtain rfl | rfl := hMarker <;> rfl
  | @definition calls calls₁ _ calls' _ _ _ _ h hNumeral hDeclare hBody _ ih =>
    have hDeclared := hConforms.declare hDeclare
    obtain ⟨hPrefix, waiting', numbers, hConforms', hNumbered, hStack⟩ :=
      hBody.leavesOpen (ih (hBody.keeps.1.conforms _ hDeclared))
    have hLength : (declarations calls₁).length = (declarations calls).length + 1 := by
      rw [hDeclare.declarations_declare, List.length_append]
      rfl
    have hFirst : Numbered calls₁ (declarations calls).length h := by
      rw [Numbered, hDeclare.declarations_declare]
      exact ⟨_, List.getElem?_concat_length⟩
    refine ⟨hDeclare.isPrefix.trans hPrefix, waiting' ++ [h],
      numbers ++ [(declarations calls).length], by rwa [List.append_assoc],
      List.rel_append hNumbered (.cons (numbered_mono hPrefix hFirst) .nil), fun stack => ?_⟩
    obtain ⟨opened, rfl, hOpened⟩ := hStack (some (declarations calls).length :: stack)
    refine ⟨opened ++ [some (declarations calls).length], by simp, ?_⟩
    rw [scan_heading hNumeral.plain, ← hLength, hOpened, List.append_assoc]
    rfl
  | refused hNumeral hDeclare hBody hFills =>
    obtain ⟨hKeeps, hMem⟩ := hBody.keeps
    have hDefine :=
      Keeps.define hDeclare hKeeps (fun f hf => hMem f (List.mem_map_of_mem hf)) hFills
    refine ⟨hDefine.isPrefix, [], [], hDefine.conforms _ hConforms, .nil,
      fun stack => ⟨[], rfl, ?_⟩⟩
    rw [(balanced_define hNumeral.plain hDeclare hBody.balanced hFills).scan_eq]
    rfl

/-- When reading stops, the structs that wait for a body are those whose braces are unclosed. -/
theorem StopsWithin.exists_unclosed (h : StopsWithin F config store [] text calls) :
    ∃ waiting, Conforms F config store calls waiting ∧
      List.Forall₂ (Numbered calls) (unclosed text) waiting := by
  obtain ⟨body, more, elements, calls₁, rfl, hBody, hMore⟩ := h
  obtain ⟨-, waiting, numbers, hConforms, hNumbered, hStack⟩ :=
    hBody.leavesOpen (hMore.leavesOpen (hBody.keeps.1.conforms [] .nil))
  obtain ⟨opened, rfl, hOpened⟩ := hStack []
  rw [List.append_nil] at hConforms hOpened
  refine ⟨waiting, hConforms, ?_⟩
  rw [unclosed, show (Braces.start.scan (body ++ more)).stack = opened from hOpened]
  exact hNumbered

end Unclosed

end Parse

end CompactType
