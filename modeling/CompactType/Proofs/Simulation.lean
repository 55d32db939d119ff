import CompactType.Proofs.Calls
import CompactType.Proofs.Steps
import Mathlib.Data.List.Forall2
import Mathlib.Order.Basic

/-!
# Simulations

Two parsers are related by what their runs have in common, or by what holds of the runs of the first
one alone. A simulation says what that is and that it holds of single steps. It then holds of the
forms that are made of them.
-/

set_option autoImplicit false

namespace CompactType

variable {σ τ H K : Type}

/-- Requests that differ only in handles, which correspond. -/
inductive Request.Matches (known : H → K → Prop) : Request H → Request K → Prop where
  | scalar (k : Scalar) : Matches known (.scalar k) (.scalar k)
  | pointer {a : H} {b : K} : known a b → Matches known (.pointer a) (.pointer b)
  | array {a : H} {b : K} (count : UInt64) :
    known a b → Matches known (.array a count) (.array b count)
  | vector {a : H} {b : K} (count : UInt32) :
    known a b → Matches known (.vector a count) (.vector b count)
  | record {as : List H} {bs : List K} :
    List.Forall₂ known as bs → Matches known (.record as) (.record bs)
  | function {as : List H} {bs : List K} {a : H} {b : K} {variadic variadic' : Bool} :
    List.Forall₂ known as bs → known a b → variadic = variadic' →
    Matches known (.function as a variadic) (.function bs b variadic')

theorem Request.Matches.name?_eq_none {known : H → K → Prop} {r : Request H} {r' : Request K}
    (h : r.Matches known r') : r.name? = none := by
  cases h <;> rfl

theorem Request.Matches.eq {known : H → H → Prop} (hEq : known ≤ Eq) {r r' : Request H}
    (h : r.Matches known r') : r = r' := by
  have hAll {as bs : List H} (hs : List.Forall₂ known as bs) : as = bs :=
    List.forall₂_eq_eq_eq ▸ hs.imp hEq
  cases h with
  | scalar => rfl
  | pointer hElem | array _ hElem | vector _ hElem => rw [hEq _ _ hElem]
  | record hFields => rw [hAll hFields]
  | function hParams hRet hVariadic => rw [hAll hParams, hEq _ _ hRet, hVariadic]

namespace Parse

variable {α β γ δ : Type}

inductive Element.Matches (known : H → K → Prop) : Element H → Element K → Prop where
  | type {a : H} {b : K} : known a b → Matches known (.type a) (.type b)
  | vararg : Matches known .vararg .vararg

inductive Placed.Matches (known : H → K → Prop) (moved : Nat → Nat → Prop) :
    Placed H → Placed K → Prop where
  | type {a : H} {b : K} {pos pos' : Nat} :
    known a b → moved pos pos' → Matches known moved ⟨.type a, pos⟩ ⟨.type b, pos'⟩
  | vararg {pos pos' : Nat} : moved pos pos' → Matches known moved ⟨.vararg, pos⟩ ⟨.vararg, pos'⟩

theorem Element.Matches.mono {known known' : H → K → Prop} (hLe : known ≤ known') {e : Element H}
    {e' : Element K} (h : e.Matches known e') : e.Matches known' e' := by
  cases h with
  | type hKnown => exact .type (hLe _ _ hKnown)
  | vararg => exact .vararg

theorem Element.Matches.placed {known : H → K → Prop} {moved : Nat → Nat → Prop} {e : Element H}
    {e' : Element K} (h : e.Matches known e') {pos pos' : Nat} (hPos : moved pos pos') :
    Placed.Matches known moved ⟨e, pos⟩ ⟨e', pos'⟩ := by
  cases h with
  | type hKnown => exact .type hKnown hPos
  | vararg => exact .vararg hPos

theorem Element.Matches.refl {known : H → H → Prop} (h : ∀ a, known a a) (e : Element H) :
    e.Matches known e := by
  cases e with
  | type a => exact .type (h a)
  | vararg => exact .vararg

theorem Element.Matches.eq {known : H → H → Prop} (hEq : known ≤ Eq) {e e' : Element H}
    (h : e.Matches known e') : e = e' := by
  cases h with
  | type hKnown => rw [hEq _ _ hKnown]
  | vararg => rfl

theorem optionRel_refl {known : H → H → Prop} (h : ∀ a, known a a) (found : Option H) :
    Option.Rel known found found := by
  cases found with
  | none => exact .none
  | some a => exact .some (h a)

/-- The same symbol, or two letters for the same scalar. -/
inductive SameSymbol : Symbol → Symbol → Prop where
  | refl (symbol : Symbol) : SameSymbol symbol symbol
  | letter {l l' : Letter} : l'.scalar = l.scalar → SameSymbol (.scalar l) (.scalar l')

def Flat : Cause → Prop
  | .nestingTooDeep _ => False
  | _ => True

/-- What was read last, as far as it tells what may come next. -/
inductive Stage where
  /-- Where the text may be over. -/
  | within
  /-- Behind something that was found. -/
  | found
  /-- Behind a closing brace. -/
  | closed
  /-- Behind an equals sign. -/
  | heading
  /-- Behind the number of a definition. -/
  | numbered
  /-- Behind another character that a number follows. -/
  | marked

/-- Where characters are looked for, and what is behind them. -/
inductive Stage.Eats : Stage → Char → Stage → Prop where
  | opening : Eats .numbered '{' .found
  | closing : Eats .within '}' .closed
  | bracket : Eats .within ']' .found
  | greater : Eats .within '>' .found
  | paren : Eats .within ')' .found
  | cross : Eats .within 'x' .marked

inductive Stage.Numbers : Stage → Stage → Prop where
  | heading : Numbers .heading .numbered
  | marked : Numbers .marked .found

def Stage.after : Symbol → Stage
  | .equals => .heading
  | .percent | .cross => .marked
  | .closeBrace => .closed
  | _ => .found

structure Simulation (F : Factory σ H) (G : Factory τ K) (config config' : Config) where
  /-- What is known at a place of the two runs. -/
  World : Type
  Later : World → World → Prop
  /-- Later, and something was read in between. -/
  Beyond : World → World → Prop
  Handles : World → H → K → Prop
  Positions : World → Nat → Nat → Prop
  /-- So many structs are declared. -/
  Counts : World → Nat → Prop
  /-- From the world and the stage on, the runs of the two parsers are related. What they answer is
  judged where they end. -/
  Related {α β : Type} : World → Stage → Parser σ H α → Parser τ K β →
    (World → Stage → α → β → Prop) → Prop
  later_refl (w : World) : Later w w
  later_trans {w w₁ w₂ : World} : Later w w₁ → Later w₁ w₂ → Later w w₂
  later_of_beyond {w w' : World} : Beyond w w' → Later w w'
  beyond_of_later {w w₁ w₂ : World} : Beyond w w₁ → Later w₁ w₂ → Beyond w w₂
  handles_mono {w w' : World} : Later w w' → Handles w ≤ Handles w'
  positions_mono {w w' : World} : Later w w' → Positions w ≤ Positions w'
  related_pure {α β : Type} {w : World} {p : Stage} {a : α} {b : β}
    {answers : World → Stage → α → β → Prop} :
    answers w p a b → Related w p (pure a) (pure b) answers
  related_bind {α β γ δ : Type} {w : World} {p : Stage} {x : Parser σ H α} {y : Parser τ K β}
    {f : α → Parser σ H γ} {g : β → Parser τ K δ} {answers : World → Stage → α → β → Prop}
    {answers' : World → Stage → γ → δ → Prop} :
    Related w p x y answers →
    (∀ w' p' a b, Later w w' → answers w' p' a b → Related w' p' (f a) (g b) answers') →
    Related w p (x >>= f) (y >>= g) answers'
  related_fail {α β : Type} {w : World} {p : Stage} {cause : Cause} {pos pos' : Nat}
    {answers : World → Stage → α → β → Prop} :
    Flat cause → Positions w pos pos' → Related w p (fail cause pos) (fail cause pos') answers
  /-- A loop is related if it is with any bound that is large enough. -/
  related_limit {α β : Type} {w : World} {p : Stage} {x : Parser σ H α} {y : Parser τ K β}
    {xs : Nat → Parser σ H α} {ys : Nat → Parser τ K β}
    {answers : World → Stage → α → β → Prop} :
    (∀ s, ∃ n, ∀ m ≥ n, (xs m).run s = x.run s) → (∀ t, ∃ n, ∀ m ≥ n, (ys m).run t = y.run t) →
    (∀ n, Related w p (xs n) (ys n) answers) → Related w p x y answers
  found_of_within {α β : Type} {w : World} {x : Parser σ H α} {y : Parser τ K β}
    {answers : World → Stage → α → β → Prop} :
    Related w .within x y answers → Related w .found x y answers
  closed_of_found {α β : Type} {w : World} {x : Parser σ H α} {y : Parser τ K β}
    {answers : World → Stage → α → β → Prop} :
    Related w .found x y answers → Related w .closed x y answers
  related_here (w : World) (p : Stage) : Related w p here here fun w' p' pos pos' =>
    w' = w ∧ p' = p ∧ Positions w pos pos'
  related_nextNumber (w : World) (p : Stage) :
    Related w p nextNumber nextNumber fun w' p' n n' => w' = w ∧ p' = p ∧ n = n' ∧ Counts w n
  related_opened? (w : World) (number : Nat) :
    Related w .found (opened? number) (opened? number) fun w' p' a b =>
      w' = w ∧ p' = .found ∧ Option.Rel (Handles w) a b
  related_classOf {w : World} {a : H} {b : K} : Handles w a b →
    Related w .within (classOf F a) (classOf G b) fun w' p' k k' => w' = w ∧ p' = .within ∧ k = k'
  related_looksAt {p : Stage} {c : Char} (w : World) : Stage.Eats .within c p →
    Related w .within (looksAt c) (looksAt c) fun w' p' found found' =>
      w' = w ∧ p' = .within ∧ found = found'
  related_eat {p q : Stage} {c : Char} (w : World) : p.Eats c q →
    Related w p (eat c) (eat c) fun w' p' found found' =>
      found = found' ∧ p' = (if found then q else p) ∧ Counts w ≤ Counts w'
  related_number {p q : Stage} {limit : Nat} {cause : Cause} (w : World) : p.Numbers q →
    Flat cause →
    Related w p (number limit cause) (number limit cause) fun _ p' n n' => p' = q ∧ n = n'
  related_request {w : World} {r : Request H} {r' : Request K} : r.Matches (Handles w) r' →
    Related w .found (request F r) (request G r') fun w' p' a b => p' = .found ∧ Handles w' a b
  /-- A struct is declared, and completed with what is read meanwhile. -/
  related_define {w : World} {number : Nat} {x : Parser σ H (List H)} {y : Parser τ K (List K)} :
    Counts w number →
    (∀ w', Later w w' → Related w' .found x y fun w'' p as bs =>
      p = .closed ∧ List.Forall₂ (Handles w'') as bs) →
    Related w .found
      (do
        let handle ← request F (.declare (config.structName number))
        register handle
        emit (.assigned number (config.structName number))
        complete F handle (← x)
        return handle)
      (do
        let handle ← request G (.declare (config'.structName number))
        register handle
        emit (.assigned number (config'.structName number))
        complete G handle (← y)
        return handle)
      fun w' p a b => p = .found ∧ Handles w' a b
  related_dispatch {w : World} {sub : ElementParser σ H} {sub' : ElementParser τ K}
    {answers : World → Stage → Option (Element H) → Option (Element K) → Prop} :
    answers w .within none none →
    (∀ w' start start' symbol symbol', Beyond w w' → Positions w' start start' →
      SameSymbol symbol symbol' →
      Related w' (.after symbol) (afterSymbol F config sub start symbol)
        (afterSymbol G config' sub' start' symbol') answers) →
    Related w .within (dispatch F config sub) (dispatch G config' sub') answers

namespace Simulation

variable {F : Factory σ H} {G : Factory τ K} {config config' : Config}
  {S : Simulation F G config config'} {w : S.World} {p q : Stage} {x : Parser σ H α}
  {y : Parser τ K β} {f : α → Parser σ H γ} {g : β → Parser τ K δ}
  {answers : S.World → Stage → α → β → Prop} {answers' : S.World → Stage → γ → δ → Prop}

variable (S) in
/-- A handle was found for a type. -/
def Typed (w : S.World) (p : Stage) (a : H) (b : K) : Prop := p = .found ∧ S.Handles w a b

variable (S) in
def Lists (w : S.World) (p : Stage) (as : List (Placed H)) (bs : List (Placed K)) : Prop :=
  p = .within ∧ List.Forall₂ (Placed.Matches (S.Handles w) (S.Positions w)) as bs

variable (S) in
/-- Nothing was read, and the answers match. -/
def Still (w : S.World) (p : Stage) (matching : α → β → Prop) (w' : S.World) (p' : Stage) (a : α)
    (b : β) : Prop :=
  w' = w ∧ p' = p ∧ matching a b

namespace Related

theorem bind_still {matching : α → β → Prop} (h : S.Related w p x y (S.Still w p matching))
    (hNext : ∀ a b, matching a b → S.Related w p (f a) (g b) answers') :
    S.Related w p (x >>= f) (y >>= g) answers' := by
  apply S.related_bind h
  rintro _ _ a b - ⟨rfl, rfl, hMatching⟩
  exact hNext a b hMatching

theorem map {wrap : α → γ} {wrap' : β → δ} (h : S.Related w p x y answers)
    (hWrap : ∀ w' p' a b, S.Later w w' → answers w' p' a b → answers' w' p' (wrap a) (wrap' b)) :
    S.Related w p (do return wrap (← x)) (do return wrap' (← y)) answers' :=
  S.related_bind h fun w' p' a b hLater hAnswers => S.related_pure (hWrap w' p' a b hLater hAnswers)

theorem ite {c : Prop} [Decidable c] {x' : Parser σ H α} {y' : Parser τ K β}
    (hThen : c → S.Related w p x y answers) (hElse : ¬c → S.Related w p x' y' answers) :
    S.Related w p (if c then x else x') (if c then y else y') answers := by
  split
  · next hc => exact hThen hc
  · next hc => exact hElse hc

theorem fail_bind {cause : Cause} {pos pos' : Nat} (hCause : Flat cause)
    (hPos : S.Positions w pos pos') :
    S.Related w p (Parse.fail cause pos >>= f) (Parse.fail cause pos' >>= g) answers' := by
  have hFail : S.Related w p (Parse.fail cause pos : Parser σ H α)
      (Parse.fail cause pos' : Parser τ K β) fun _ _ _ _ => False :=
    S.related_fail hCause hPos
  exact S.related_bind hFail nofun

theorem failHere {cause : Cause} (hCause : Flat cause) :
    S.Related w p (Parse.failHere cause) (Parse.failHere cause) answers :=
  bind_still (S.related_here w p) fun _ _ hPos => S.related_fail hCause hPos

theorem failHere_bind {cause : Cause} (hCause : Flat cause) :
    S.Related w p (Parse.failHere cause >>= f) (Parse.failHere cause >>= g) answers' := by
  have hFail : S.Related w p (Parse.failHere cause : Parser σ H α)
      (Parse.failHere cause : Parser τ K β) fun _ _ _ _ => False :=
    failHere hCause
  exact S.related_bind hFail nofun

theorem mapM {each : α → Parser σ H γ} {each' : β → Parser τ K δ} {matching : α → β → Prop}
    {matching' : γ → δ → Prop} {as : List α} {bs : List β} (h : List.Forall₂ matching as bs)
    (hEach : ∀ a b, matching a b → S.Related w p (each a) (each' b) (S.Still w p matching')) :
    S.Related w p (as.mapM each) (bs.mapM each') (S.Still w p (List.Forall₂ matching')) := by
  induction h with
  | nil => exact S.related_pure ⟨rfl, rfl, .nil⟩
  | cons hHead _ ih =>
    rw [List.mapM_cons, List.mapM_cons]
    refine (hEach _ _ hHead).bind_still fun c d hFirst => ih.bind_still fun cs ds hRest => ?_
    exact S.related_pure ⟨rfl, rfl, .cons hFirst hRest⟩

theorem eat_bind {c : Char} {f : Bool → Parser σ H γ} {g : Bool → Parser τ K δ} (h : p.Eats c q)
    (hFound : ∀ w', S.Later w w' → S.Counts w ≤ S.Counts w' →
      S.Related w' q (f true) (g true) answers')
    (hMissing : ∀ w', S.Later w w' → S.Related w' p (f false) (g false) answers') :
    S.Related w p (eat c >>= f) (eat c >>= g) answers' := by
  apply S.related_bind (S.related_eat w h)
  rintro w' _ found _ hLater ⟨rfl, rfl, hCounts⟩
  cases found with
  | true => exact hFound w' hLater hCounts
  | false => exact hMissing w' hLater

theorem close {c : Char} (h : p.Eats c q) :
    S.Related w p (Parse.close c) (Parse.close c) fun _ p' _ _ => p' = q :=
  eat_bind h (fun _ _ _ => S.related_pure rfl) fun _ _ => failHere trivial

end Related

end Simulation

end Parse

end CompactType
