import CompactType.Proofs.Evidence
import CompactType.Proofs.ReadSteps

/-!
# Places in a text

Where the states and the elements of a run stand in the text, and what a step that fails finds
there. A fault is blamed on what the text shows at its place.
-/

set_option autoImplicit false

namespace CompactType.Parse

/-- The text shows the cause of the fault at its place, if it is not that types nest too deep. -/
def Blames (config : Config) (text : List Char) (fault : Fault) : Prop :=
  ∃ before after, text = before ++ after ∧ before.length = fault.pos ∧
    (∀ c ∈ before, Lexical c) ∧
    ((∃ d, fault.cause = .nestingTooDeep d) ∨ Evident config before after fault.cause)

/-- The state stands behind the first part of the text. -/
structure Located (text before : List Char) (s : State (List Draft) Spec) : Prop where
  text_eq : text = before ++ s.cursor.rest
  pos_eq : before.length = s.cursor.pos
  lexical : ∀ c ∈ before, Lexical c

/-- Behind the first part of the text, a struct is defined for each equals sign in that part. -/
structure Situated (text before : List Char) (s : State (List Draft) Spec) : Prop
    extends Located text before s where
  aligned : Aligned s
  length_eq : s.store.length = before.count '='

section Steps

variable {config : Config} {text before chunk : List Char} {s s' : State (List Draft) Spec}
  {fault : Fault}

theorem Located.blames (h : Located text before s) {cause : Cause}
    (hCause : Evident config before s.cursor.rest cause) :
    Blames config text ⟨cause, s.cursor.pos⟩ :=
  ⟨before, s.cursor.rest, h.text_eq, h.pos_eq, h.lexical, .inr hCause⟩

theorem Located.blames_nesting (h : Located text before s) (d : Nat) :
    Blames config text ⟨.nestingTooDeep d, s.cursor.pos⟩ :=
  ⟨before, s.cursor.rest, h.text_eq, h.pos_eq, h.lexical, .inl ⟨d, rfl⟩⟩

theorem Located.read (h : Located text before s) (hRest : s.cursor.rest = chunk ++ s'.cursor.rest)
    (hLength : s'.cursor.length = s.cursor.length) (hChunk : ∀ c ∈ chunk, Lexical c) :
    Located text (before ++ chunk) s' where
  text_eq := by rw [h.text_eq, hRest, List.append_assoc]
  pos_eq := by
    have hRoom := congrArg List.length hRest
    have hPos := h.pos_eq
    simp only [Cursor.length, List.length_append] at hLength hRoom ⊢
    omega
  lexical := List.forall_mem_append.mpr ⟨h.lexical, hChunk⟩

theorem Situated.same (h : Situated text before s) (hLocated : Located text (before ++ chunk) s')
    (hSame : SameDrafts s s') (hCount : chunk.count '=' = 0) :
    Situated text (before ++ chunk) s' where
  toLocated := hLocated
  aligned := hSame.aligned h.aligned
  length_eq := by rw [hSame.store_eq, h.length_eq, List.count_append, hCount, Nat.add_zero]

theorem eat_eq_false {c : Char} (h : (eat c).run s = .ok false s') :
    s' = s ∧ s.cursor.rest.head? ≠ some c := by
  rw [run_eat] at h
  by_cases hc : s.cursor.looksAt c = true
  · simp [Cursor.eat, hc] at h
  · simp only [Cursor.eat, hc] at h
    cases h
    exact ⟨rfl, by simpa [Cursor.looksAt, Cursor.peek?] using hc⟩

theorem close_eq_error {c : Char}
    (h : (close c : Parser (List Draft) Spec Unit).run s = .error fault s') :
    fault = ⟨.missingClose c, s.cursor.pos⟩ ∧ s.cursor.rest.head? ≠ some c := by
  rw [run_close] at h
  split at h
  · cases h
  · next hc =>
    cases h
    exact ⟨rfl, by simpa [Cursor.looksAt, Cursor.peek?] using hc⟩

theorem number_eq_error {limit : Nat} {cause : Cause}
    (h : (number limit cause).run s = .error fault s') :
    fault = ⟨cause, s.cursor.pos⟩ ∧ NoNumber limit s.cursor.rest := by
  rw [run_number] at h
  simp only at h
  split at h
  · next hRun =>
    cases h
    exact ⟨rfl, hRun⟩
  · cases h

theorem Located.eat (h : Located text before s) (symbol : Symbol)
    (hEat : (eat symbol.char).run s = .ok true s') :
    Located text (before ++ [symbol.char]) s' ∧ SameDrafts s s' := by
  obtain ⟨hRest, hSame⟩ := eat_eq_ok hEat
  refine ⟨h.read hRest ?_ (by simpa using lexical_char symbol), hSame⟩
  have hCursor : s'.cursor = (s.cursor.eat symbol.char).2 := by
    rw [run_eat] at hEat
    exact congrArg State.cursor (EStateM.Result.ok.inj hEat).2.symm
  rw [hCursor, Cursor.length_eat]

theorem Located.number (h : Located text before s) {limit value : Nat} {cause : Cause}
    (hNumber : (number limit cause).run s = .ok value s') :
    ∃ run, s.cursor.rest = run ++ s'.cursor.rest ∧ Numeral run value ∧
      NoDigit s'.cursor.rest ∧ Located text (before ++ run) s' ∧ SameDrafts s s' := by
  obtain ⟨run, hRun, -, hRest, hSame⟩ := number_eq_ok hNumber
  rw [run_number] at hNumber
  simp only at hNumber
  split at hNumber
  · cases hNumber
  · cases hNumber
    exact ⟨run, hRest, hRun, noDigit_dropWhile _,
      h.read hRest (Cursor.length_takeRun _ _) hRun.lexical, hSame⟩

theorem mapM_eq_error {check : Placed Spec → Parser (List Draft) Spec Spec}
    {placed : List (Placed Spec)} (h : (placed.mapM check).run s = .error fault s') :
    ∃ p ∈ placed, ∃ s₁, (check p).run s₁ = .error fault s' := by
  induction placed generalizing s with
  | nil => cases h
  | cons p placed ih =>
    rw [List.mapM_cons] at h
    obtain hHead | ⟨_, s₁, -, h⟩ := run_bind_eq_error.mp h
    · exact ⟨p, List.mem_cons_self, s, hHead⟩
    · obtain ⟨p', hp', hFault⟩ := ih (run_map_eq_error h)
      exact ⟨p', List.mem_cons_of_mem _ hp', hFault⟩

end Steps

/-- The text that an element is read from. -/
def Shows (chunk : List Char) : Element Spec → Prop
  | .type handle => ∃ n m t, Spells n chunk t m ∧ handle = t.outline
  | .vararg => chunk = ['&']

/-- The placed elements stand one after another between the ends of the two texts. -/
inductive Laid : List Char → List (Placed Spec) → List Char → Prop where
  | nil (before : List Char) : Laid before [] before
  | cons {before chunk behind : List Char} {p : Placed Spec} {placed : List (Placed Spec)} :
    Shows chunk p.element → before.length = p.pos → Laid (before ++ chunk) placed behind →
    Laid before (p :: placed) behind

namespace Laid

variable {before behind : List Char} {placed : List (Placed Spec)} {p : Placed Spec}

theorem exists_behind (h : Laid before placed behind) : ∃ more, behind = before ++ more := by
  induction h with
  | nil => exact ⟨[], (List.append_nil _).symm⟩
  | @cons _ chunk _ _ _ _ _ _ ih =>
    obtain ⟨more, rfl⟩ := ih
    exact ⟨chunk ++ more, List.append_assoc _ _ _⟩

theorem of_mem (h : Laid before placed behind) (hp : p ∈ placed) :
    ∃ front chunk more, behind = front ++ (chunk ++ more) ∧ Shows chunk p.element ∧
      front.length = p.pos := by
  induction h with
  | nil => cases hp
  | @cons front chunk _ _ _ hShows hPos hRest ih =>
    obtain rfl | hp := List.mem_cons.mp hp
    · obtain ⟨more, rfl⟩ := hRest.exists_behind
      exact ⟨front, chunk, more, List.append_assoc _ _ _, hShows, hPos⟩
    · exact ih hp

theorem of_concat (h : Laid before (placed ++ [p]) behind) :
    ∃ front chunk, behind = front ++ chunk ∧ Shows chunk p.element ∧ front.length = p.pos := by
  induction placed generalizing before with
  | nil =>
    cases h with
    | cons hShows hPos hRest =>
      cases hRest
      exact ⟨_, _, rfl, hShows, hPos⟩
  | cons _ placed ih =>
    cases h with
    | cons _ _ hRest => exact ih hRest

end Laid

theorem Located.blames_of_laid {config : Config} {text before behind : List Char}
    {placed : List (Placed Spec)} {p : Placed Spec} {s : State (List Draft) Spec} {cause : Cause}
    (h : Located text behind s) (hLaid : Laid before placed behind) (hp : p ∈ placed)
    (hCause : ∀ front chunk rest, Shows chunk p.element →
      Evident config front (chunk ++ rest) cause) :
    Blames config text ⟨cause, p.pos⟩ := by
  obtain ⟨front, chunk, more, rfl, hShows, hPos⟩ := hLaid.of_mem hp
  refine ⟨front, chunk ++ (more ++ s.cursor.rest), ?_, hPos, ?_, .inr (hCause _ _ _ hShows)⟩
  · simp [h.text_eq]
  · exact (List.forall_mem_append.mp h.lexical).1

end CompactType.Parse
