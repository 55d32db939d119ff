import CompactType.Proofs.Braces

/-!
# Bodies and the braces that they are written in

A struct is given a body for a definition in the text: it stands behind as many equals signs as
structs were declared before, and between its braces are as many types as the body has fields.
-/

set_option autoImplicit false

namespace CompactType.Parse

variable {σ H : Type}

section Defines

variable (F : Factory σ H) (config : Config) (store : σ)

/-- The text has the definition with this number, whose fields are read as these. It begins with the
number `n`. -/
def Defines (n : Nat) (text : List Char) (number : Nat) (fields : List H) : Prop :=
  ∃ front run body rest calls calls', text = front ++ '=' :: (run ++ '{' :: (body ++ '}' :: rest)) ∧
    n + front.count '=' = number ∧ Numeral run number ∧
    MakesAll F config store calls body (fields.map .type) calls'

/-- Bodies that are new among the calls are written in the text. -/
def Records (calls : List (Call H)) (text : List Char) (calls' : List (Call H)) : Prop :=
  ∀ handle fields, .body handle fields ∈ calls' → .body handle fields ∈ calls ∨
    ∃ number, Numbered calls' number handle ∧
      Defines F config store (declarations calls).length text number fields

end Defines

variable {F : Factory σ H} {config : Config} {store : σ}
  {calls calls₁ calls₂ calls' : List (Call H)} {text more : List Char}

theorem Defines.append_right {n number : Nat} {fields : List H}
    (h : Defines F config store n text number fields) (more : List Char) :
    Defines F config store n (text ++ more) number fields := by
  obtain ⟨front, run, body, rest, c, c', rfl, hNumber, hNumeral, hBody⟩ := h
  exact ⟨front, run, body, rest ++ more, c, c', by simp, hNumber, hNumeral, hBody⟩

theorem Defines.append_left {n number : Nat} {fields : List H}
    (h : Defines F config store (n + text.count '=') more number fields) :
    Defines F config store n (text ++ more) number fields := by
  obtain ⟨front, run, body, rest, c, c', rfl, hNumber, hNumeral, hBody⟩ := h
  refine ⟨text ++ front, run, body, rest, c, c', by simp, ?_, hNumeral, hBody⟩
  rw [List.count_append, ← Nat.add_assoc, hNumber]

theorem records_refl (calls : List (Call H)) (text : List Char) :
    Records F config store calls text calls :=
  fun _ _ hMem => .inl hMem

theorem Records.asks (h : Records F config store calls text calls₁) {r : Request H} {handle : H}
    (hAsks : Asks F store calls₁ r handle calls') : Records F config store calls text calls' := by
  intro handle' fields hMem
  rw [hAsks.calls_eq, List.mem_append, List.mem_singleton] at hMem
  obtain hMem | ⟨⟨⟩⟩ := hMem
  obtain hOld | ⟨number, hNumbered, hDefines⟩ := h handle' fields hMem
  · exact .inl hOld
  · exact .inr ⟨number, numbered_mono hAsks.isPrefix hNumbered, hDefines⟩

theorem Records.append (h : Records F config store calls text calls₁)
    (hLength : (declarations calls₁).length = (declarations calls).length + text.count '=')
    (hPrefix : calls₁ <+: calls') (h' : Records F config store calls₁ more calls') :
    Records F config store calls (text ++ more) calls' := by
  intro handle fields hMem
  obtain hOld | ⟨number, hNumbered, hDefines⟩ := h' handle fields hMem
  · obtain hOld | ⟨number, hNumbered, hDefines⟩ := h handle fields hOld
    · exact .inl hOld
    · exact .inr ⟨number, numbered_mono hPrefix hNumbered, hDefines.append_right more⟩
  · exact .inr ⟨number, hNumbered, (hLength ▸ hDefines).append_left⟩

theorem Records.append_right (h : Records F config store calls text calls') (more : List Char) :
    Records F config store calls (text ++ more) calls' := by
  intro handle fields hMem
  obtain hOld | ⟨number, hNumbered, hDefines⟩ := h handle fields hMem
  · exact .inl hOld
  · exact .inr ⟨number, hNumbered, hDefines.append_right more⟩

theorem Records.cons {c : Char} (hc : c ≠ '=') (h : Records F config store calls text calls') :
    Records F config store calls (c :: text) calls' := by
  intro handle fields hMem
  obtain hOld | ⟨number, hNumbered, hDefines⟩ := h handle fields hMem
  · exact .inl hOld
  · have hCount : [c].count '=' = 0 := List.count_eq_zero.mpr (by simpa using Ne.symm hc)
    refine .inr ⟨number, hNumbered, ?_⟩
    rw [← List.singleton_append]
    exact Defines.append_left (by rwa [hCount])

theorem Records.heading {run : List Char} {name : String} {handle : H}
    (hNumeral : Numeral run (declarations calls).length)
    (hDeclare : Asks F store calls (.declare name) handle calls₁)
    (h : Records F config store calls₁ text calls') (hPrefix : calls₁ <+: calls') :
    Records F config store calls ('=' :: (run ++ '{' :: text)) calls' := by
  have hCount : ('=' :: (run ++ ['{'])).count '=' = 1 := by
    simp [Braces.count_of_plain hNumeral.plain]
  have hText : '=' :: (run ++ '{' :: text) = ('=' :: (run ++ ['{'])) ++ text := by simp
  rw [hText]
  refine ((records_refl calls _).asks hDeclare).append ?_ hPrefix h
  rw [hDeclare.declarations_declare, hCount, List.length_append]
  rfl

theorem Records.define {run body : List Char} {handle : H} {fields : List H}
    (hNumeral : Numeral run (declarations calls).length)
    (hDeclare : Asks F store calls (.declare (config.structName (declarations calls).length)) handle
      calls₁)
    (hBody : MakesAll F config store calls₁ body (fields.map .type) calls₂)
    (hRecords : Records F config store calls₁ body calls₂)
    (hFills : Fills F store calls₂ handle fields calls') :
    Records F config store calls ('=' :: (run ++ '{' :: (body ++ ['}']))) calls' := by
  have hPrefix := hBody.keeps.1.isPrefix
  intro handle' fields' hMem
  rw [hFills.calls_eq, List.mem_append, List.mem_singleton] at hMem
  obtain hMem | ⟨⟨⟩⟩ := hMem
  · obtain hOld | ⟨number, hNumbered, hDefines⟩ :=
      (hRecords.append_right ['}']).heading hNumeral hDeclare hPrefix handle' fields' hMem
    · exact .inl hOld
    · exact .inr ⟨number, numbered_mono hFills.isPrefix hNumbered, hDefines⟩
  · have hNumbered : Numbered calls₁ (declarations calls).length handle := by
      rw [Numbered, hDeclare.declarations_declare]
      exact ⟨_, List.getElem?_concat_length⟩
    exact .inr ⟨_, numbered_mono (hPrefix.trans hFills.isPrefix) hNumbered, [], run, body, [], _, _,
      rfl, rfl, hNumeral, hBody⟩

mutual

theorem Makes.records {calls calls' : List (Call H)} {text : List Char} {h : H} :
    Makes F config store calls text h calls' → Records F config store calls text calls'
  | .scalar _ hAsks => (records_refl _ _).asks hAsks
  | .pointer hElem hAsks => (hElem.records.cons (by decide)).asks hAsks
  | .array hElem _ _ hAsks | .vector hElem _ _ hAsks =>
    ((hElem.records.append_right _).cons (by decide)).asks hAsks
  | .record hBody hAsks => ((hBody.records.append_right _).cons (by decide)).asks hAsks
  | .define hNumeral hDeclare hBody hFills => .define hNumeral hDeclare hBody hBody.records hFills
  | .reference _ _ => records_refl _ _
  | .function hBody _ hAsks => ((hBody.records.append_right _).cons (by decide)).asks hAsks

theorem MakesAll.records {calls calls' : List (Call H)} {text : List Char}
    {elements : List (Element H)} :
    MakesAll F config store calls text elements calls' → Records F config store calls text calls'
  | .nil _ => records_refl _ _
  | .type hHead hTail =>
    hHead.records.append hHead.balanced.length_eq hTail.keeps.1.isPrefix hTail.records
  | .vararg hTail => hTail.records.cons (by decide)

end

theorem MakesAll.records_append {elements : List (Element H)}
    (hBody : MakesAll F config store calls text elements calls₁) (hPrefix : calls₁ <+: calls')
    (h : Records F config store calls₁ more calls') :
    Records F config store calls (text ++ more) calls' :=
  hBody.records.append hBody.balanced.length_eq hPrefix h

theorem Stops.isPrefix (h : Stops F config store calls text calls') : calls <+: calls' := by
  induction h with
  | trailing | number => exact List.prefix_rfl
  | inside _ hBody _ ih => exact hBody.keeps.1.isPrefix.trans ih
  | definition _ hDeclare hBody _ ih =>
    exact hDeclare.isPrefix.trans (hBody.keeps.1.isPrefix.trans ih)
  | refused _ hDeclare hBody hFills =>
    exact hDeclare.isPrefix.trans (hBody.keeps.1.isPrefix.trans hFills.isPrefix)

theorem Stops.records (h : Stops F config store calls text calls') :
    Records F config store calls text calls' := by
  induction h with
  | trailing | number => exact records_refl _ _
  | inside hOpening hBody hMore ih =>
    refine (hBody.records_append hMore.isPrefix ih).cons ?_
    rintro rfl
    revert hOpening
    decide
  | definition hNumeral hDeclare hBody hMore ih =>
    exact (hBody.records_append hMore.isPrefix ih).heading hNumeral hDeclare
      (hBody.keeps.1.isPrefix.trans hMore.isPrefix)
  | refused hNumeral hDeclare hBody hFills =>
    exact .define hNumeral hDeclare hBody hBody.records hFills

/-- Every body that a parse gave is written in its text. -/
theorem Ending.defines {spec : String} {waiting : List H} {outcome : Except Diagnostic H}
    (h : Ending F config spec store calls waiting outcome) {handle : H} {fields : List H}
    (hMem : .body handle fields ∈ calls) :
    ∃ number, Numbered calls number handle ∧
      Defines F config store 0 spec.toList number fields := by
  have hRecords : Records F config store [] spec.toList calls := by
    cases h with
    | ok _ hMakes => exact hMakes.records
    | @error fault s _ _ hStops =>
      obtain ⟨body, more, elements, calls₁, hText, hBody, hMore⟩ := hStops
      rw [← List.take_append_drop (boundary fault s) spec.toList, hText]
      exact (hBody.records_append hMore.isPrefix hMore.records).append_right _
  exact (hRecords handle fields hMem).resolve_left List.not_mem_nil

end CompactType.Parse
