import CompactType.Proofs.Evidence
import CompactType.Proofs.Harmless
import CompactType.Proofs.RoundTrip

/-!
# Lists of specifications on the command line

Each specification of a list is shown as it would be alone, up to the first that is not accepted,
and whether types or spellings are shown makes no difference to that. The spellings shown are
specifications of the same types again.
-/

set_option autoImplicit false

namespace CompactType.CommandLine

open FileTree TypeTable

/-- The text is accepted as the spelling of the tree. -/
def Spelled (config : Config) (spec : String) (s : Spec) : Prop :=
  ∃ m, Spells 0 spec.toList s m ∧ s.nesting ≤ config.maxDepth

def Accepted (config : Config) (spec : String) : Prop :=
  ∃ id, (initial.parse spec config).outcome = .ok id

/-- The display never refuses a text that is accepted. The line it gives depends on the tree. -/
def Faithful (config : Config) (display : Show) (line : Spec → String) : Prop :=
  ∀ spec s, Spelled config spec s → showSpec display config spec = .ok (line s)

section Displays

variable {config : Config} {spec : String} {s : Spec}

theorem faithful_text (config : Config) :
    Faithful config text fun s => s.printed config.structName := by
  rintro spec s ⟨m, hSpells, hNesting⟩
  obtain ⟨id, ids, hOk, -, hHolds⟩ := indexed_initial.parse_of_spells hSpells hNesting
  simp only [showSpec, hOk, hHolds.text_eq]
  rfl

theorem faithful_encode (config : Config) : Faithful config encode Spec.text := by
  rintro spec s ⟨m, hSpells, hNesting⟩
  obtain ⟨id, ids, hOk, -, hHolds⟩ := indexed_initial.parse_of_spells hSpells hNesting
  simp only [showSpec, hOk, hHolds.encode_eq hSpells]
  rfl

theorem accepted_iff : Accepted config spec ↔ ∃ s, Spelled config spec s :=
  (parse_initial_ok spec config).1

theorem Spelled.canonicalText_eq (h : Spelled config spec s) : canonicalText spec = s.text := by
  obtain ⟨m, hSpells, -⟩ := h
  rw [canonicalText, hSpells.canonicalChars_eq, Spec.text]

theorem Spelled.canonical (h : Spelled config spec s) :
    Spelled config (canonicalText spec) s := by
  have hText := h.canonicalText_eq
  obtain ⟨m, hSpells, hNesting⟩ := h
  refine ⟨m, ?_, hNesting⟩
  rw [hText, Spec.text, String.toList_ofList]
  exact hSpells.canonical

theorem not_lexical_newline : ¬Lexical '\n' := by
  rintro (⟨symbol, hChar⟩ | hDigit)
  · cases (Symbol.ofChar?_eq_some_iff.mpr hChar : Symbol.ofChar? '\n' = some symbol)
  · cases hDigit

theorem Spelled.newline_notMem (h : Spelled config spec s) : '\n' ∉ spec.toList := by
  obtain ⟨m, hSpells, -⟩ := h
  exact fun hMem => not_lexical_newline (hSpells.lexical _ hMem)

end Displays

section Lists

variable {config : Config} {display : Show} {line : Spec → String} {spec : String} {s : Spec}
  {before after : List String}

/-- What a command shows for one specification. -/
def alone (display : Show) (config : Config) (spec : String) : String :=
  (showAll display config [spec]).output

theorem Faithful.showAll_single (h : Faithful config display line) (hSpec : Spelled config spec s) :
    showAll display config [spec] = ⟨0, line s ++ "\n"⟩ := by
  simp [showAll, h spec s hSpec]

theorem Faithful.alone_canonical (h : Faithful config display line)
    (hAccepted : Accepted config spec) :
    alone display config (canonicalText spec) = alone display config spec := by
  obtain ⟨s, hSpec⟩ := accepted_iff.mp hAccepted
  rw [alone, alone, h.showAll_single hSpec, h.showAll_single hSpec.canonical]

theorem Faithful.showAll_append (h : Faithful config display line)
    (hBefore : ∀ spec ∈ before, Accepted config spec) (rest : List String) :
    showAll display config (before ++ rest) = ⟨(showAll display config rest).code,
      String.join (before.map (alone display config)) ++
        (showAll display config rest).output⟩ := by
  induction before with
  | nil => simp
  | cons spec before ih =>
    obtain ⟨hHead, hTail⟩ := List.forall_mem_cons.mp hBefore
    obtain ⟨s, hSpec⟩ := accepted_iff.mp hHead
    rw [List.cons_append, showAll, h spec s hSpec]
    simp only [ih hTail, List.map_cons, String.join_cons, alone, h.showAll_single hSpec]
    rw [String.append_assoc, String.append_assoc, String.append_assoc]

theorem Faithful.showAll_accepted (h : Faithful config display line)
    (hAll : ∀ spec ∈ before, Accepted config spec) :
    showAll display config before =
      ⟨0, String.join (before.map (alone display config))⟩ := by
  have hAppend := h.showAll_append hAll []
  rwa [List.append_nil, showAll, String.append_empty] at hAppend

theorem Faithful.showAll_rejected (h : Faithful config display line)
    (hBefore : ∀ spec ∈ before, Accepted config spec) {diagnostic : Diagnostic}
    (hError : (initial.parse spec config).outcome = .error diagnostic) :
    showAll display config (before ++ spec :: after) =
      ⟨1, String.join (before.map (alone display config)) ++ (diagnostic.render ++ "\n")⟩ := by
  have hSpec : showSpec display config spec = .error diagnostic.render := by
    simp only [showSpec, hError]
  rw [h.showAll_append hBefore, showAll, hSpec]

theorem Accepted.canonical (h : Accepted config spec) : Accepted config (canonicalText spec) := by
  obtain ⟨s, hSpec⟩ := accepted_iff.mp h
  exact accepted_iff.mpr ⟨s, hSpec.canonical⟩

theorem Faithful.showAll_canonical (h : Faithful config display line)
    (hAll : ∀ spec ∈ before, Accepted config spec) :
    showAll display config (before.map canonicalText) = showAll display config before := by
  have hCanonical : ∀ spec ∈ before.map canonicalText, Accepted config spec :=
    List.forall_mem_map.mpr fun spec hSpec => (hAll spec hSpec).canonical
  rw [h.showAll_accepted hCanonical, h.showAll_accepted hAll, List.map_map]
  have hLines : before.map (alone display config ∘ canonicalText) =
      before.map (alone display config) :=
    List.map_congr_left fun spec hSpec => h.alone_canonical (hAll spec hSpec)
  rw [hLines]

theorem output_showAll_encode (hAll : ∀ spec ∈ before, Accepted config spec) :
    (showAll encode config before).output =
      String.join ((before.map canonicalText).map fun line => line ++ "\n") := by
  have hEncode := faithful_encode config
  rw [hEncode.showAll_accepted hAll, List.map_map]
  refine congrArg String.join (List.map_congr_left fun spec hSpec => ?_)
  obtain ⟨s, hSpelled⟩ := accepted_iff.mp (hAll spec hSpec)
  rw [alone, hEncode.showAll_single hSpelled, Function.comp_apply, hSpelled.canonicalText_eq]

theorem showAll_single_of_ok {id : Nat} {shown : String}
    (hOk : (initial.parse spec config).outcome = .ok id)
    (hShown : display (initial.parse spec config).store id = .ok shown) :
    showAll display config [spec] = ⟨0, shown ++ "\n"⟩ := by
  have hSpec : showSpec display config spec = .ok shown := by
    simp only [showSpec, hOk, hShown]
    rfl
  simp [showAll, hSpec]

theorem accepted_or_rejected (config : Config) (specs : List String) :
    (∀ spec ∈ specs, Accepted config spec) ∨
    ∃ before spec after diagnostic, specs = before ++ spec :: after ∧
      (∀ spec ∈ before, Accepted config spec) ∧
      (initial.parse spec config).outcome = .error diagnostic := by
  induction specs with
  | nil => exact .inl (List.forall_mem_nil _)
  | cons spec specs ih =>
    cases hOutcome : (initial.parse spec config).outcome with
    | error diagnostic =>
      exact .inr ⟨[], spec, specs, diagnostic, rfl, List.forall_mem_nil _, hOutcome⟩
    | ok id =>
      have hHead : Accepted config spec := ⟨id, hOutcome⟩
      obtain hAll | ⟨before, bad, after, diagnostic, rfl, hBefore, hError⟩ := ih
      · exact .inl (List.forall_mem_cons.mpr ⟨hHead, hAll⟩)
      · exact .inr ⟨spec :: before, bad, after, diagnostic, rfl,
          List.forall_mem_cons.mpr ⟨hHead, hBefore⟩, hError⟩

end Lists

/-- Two commands show a list up to the same text: all of it, or what is in front of the first text
that is not accepted, and then what is wrong with that. -/
inductive ShowAlike (config : Config) (first second : List String → Report)
    (specs : List String) : Prop where
  | accepted :
    (∀ spec ∈ specs, Accepted config spec) →
    first specs = ⟨0, String.join (specs.map fun spec => (first [spec]).output)⟩ →
    second specs = ⟨0, String.join (specs.map fun spec => (second [spec]).output)⟩ →
    ShowAlike config first second specs
  | rejected {before after : List String} {spec : String} {diagnostic : Diagnostic} :
    specs = before ++ spec :: after → (∀ spec ∈ before, Accepted config spec) →
    (initial.parse spec config).outcome = .error diagnostic →
    first specs = ⟨1, String.join (before.map fun spec => (first [spec]).output) ++
      (diagnostic.render ++ "\n")⟩ →
    second specs = ⟨1, String.join (before.map fun spec => (second [spec]).output) ++
      (diagnostic.render ++ "\n")⟩ →
    ShowAlike config first second specs

section Commands

variable {t : FileTree} {path : Option String} {config : Config}

theorem showAlike_of_faithful {first second : Show} {line line' : Spec → String}
    (h : Faithful config first line) (h' : Faithful config second line') (specs : List String) :
    ShowAlike config (showAll first config) (showAll second config) specs := by
  obtain hAll | ⟨before, spec, after, diagnostic, rfl, hBefore, hError⟩ :=
    accepted_or_rejected config specs
  · exact .accepted hAll (h.showAll_accepted hAll) (h'.showAll_accepted hAll)
  · exact .rejected rfl hBefore hError (h.showAll_rejected hBefore hError)
      (h'.showAll_rejected hBefore hError)

theorem ShowAlike.code_eq_zero_iff {first second : List String → Report} {specs : List String}
    (h : ShowAlike config first second specs) :
    ((first specs).code = 0 ↔ ∀ spec ∈ specs, Accepted config spec) ∧
      ((second specs).code = 0 ↔ ∀ spec ∈ specs, Accepted config spec) := by
  cases h with
  | accepted hAll hFirst hSecond =>
    rw [hFirst, hSecond]
    exact ⟨iff_of_true rfl hAll, iff_of_true rfl hAll⟩
  | @rejected before after spec diagnostic hSpecs hBefore hError hFirst hSecond =>
    have hNot : ¬∀ spec ∈ specs, Accepted config spec := by
      intro hAll
      obtain ⟨id, hOk⟩ := hAll spec (hSpecs ▸ List.mem_append_right before List.mem_cons_self)
      cases hOk.symm.trans hError
    rw [hFirst, hSecond]
    have hOne : (1 : UInt32) ≠ 0 := by decide
    exact ⟨iff_of_false hOne hNot, iff_of_false hOne hNot⟩

/-- The report of showing printed forms, under the configuration at the path. -/
def typesReport (t : FileTree) (path : Option String) (specs : List String) : Report :=
  (((⟨.types specs, path⟩ : Invocation).run access).run t).1

def spellingsReport (t : FileTree) (path : Option String) (specs : List String) : Report :=
  (((⟨.spellings specs, path⟩ : Invocation).run access).run t).1

theorem typesReport_eq (h : loaded t (path.getD Config.fileName) = .ok config) :
    typesReport t path = showAll text config := by
  funext specs
  change ((showUnder access (path.getD Config.fileName) text specs).run t).1 = _
  rw [showUnder_run, h]
  rfl

theorem spellingsReport_eq (h : loaded t (path.getD Config.fileName) = .ok config) :
    spellingsReport t path = showAll encode config := by
  funext specs
  change ((showUnder access (path.getD Config.fileName) encode specs).run t).1 = _
  rw [showUnder_run, h]
  rfl

/-- Both commands show the specifications of a list as they would be shown alone, up to the first
that is not accepted. If all are, the lines of spellings can be given in their place. -/
theorem shows_lists (h : loaded t (path.getD Config.fileName) = .ok config)
    (specs : List String) :
    ShowAlike config (typesReport t path) (spellingsReport t path) specs ∧
    ((typesReport t path specs).code = 0 ↔ ∀ spec ∈ specs, Accepted config spec) ∧
    ((spellingsReport t path specs).code = 0 ↔ ∀ spec ∈ specs, Accepted config spec) ∧
    (∀ spec id, (initial.parse spec config).outcome = .ok id → ∃ label encoded,
      (initial.parse spec config).store.text id = .ok label ∧
      (initial.parse spec config).store.encode id = .ok encoded ∧
      typesReport t path [spec] = ⟨0, label ++ "\n"⟩ ∧
      spellingsReport t path [spec] = ⟨0, encoded ++ "\n"⟩) ∧
    ((spellingsReport t path specs).code = 0 → ∃ lines : List String,
      (∀ line ∈ lines, '\n' ∉ line.toList) ∧
      (spellingsReport t path specs).output = String.join (lines.map fun line => line ++ "\n") ∧
      spellingsReport t path lines = spellingsReport t path specs ∧
      typesReport t path lines = typesReport t path specs) := by
  rw [typesReport_eq h, spellingsReport_eq h]
  have hText := faithful_text config
  have hEncode := faithful_encode config
  have hAlike := showAlike_of_faithful hText hEncode specs
  obtain ⟨hTypes, hSpellings⟩ := hAlike.code_eq_zero_iff
  refine ⟨hAlike, hTypes, hSpellings, ?_, ?_⟩
  · intro spec id hOk
    obtain ⟨s, m, ids, hSpells, -, -, hHolds⟩ := indexed_initial.holds_of_ok hOk
    exact ⟨_, _, hHolds.text_eq, hHolds.encode_eq hSpells,
      showAll_single_of_ok hOk hHolds.text_eq,
      showAll_single_of_ok hOk (hHolds.encode_eq hSpells)⟩
  · intro hCode
    have hAll := hSpellings.mp hCode
    refine ⟨specs.map canonicalText, ?_, output_showAll_encode hAll,
      hEncode.showAll_canonical hAll, hText.showAll_canonical hAll⟩
    refine List.forall_mem_map.mpr fun spec hSpec => ?_
    obtain ⟨s, hSpelled⟩ := accepted_iff.mp (hAll spec hSpec)
    exact hSpelled.canonical.newline_notMem

theorem shows_lists_named :
    loaded (.ofLists [] [("m", "parser.struct-prefix = 's'".toUTF8)]) "m" =
      .ok { structPrefix := "s" } ∧
    typesReport (.ofLists [] [("m", "parser.struct-prefix = 's'".toUTF8)]) (some "m")
      ["=00\x7bB\x7d", "(v&H)"] = ⟨0, "%s0\nfn(...) -> i16\n"⟩ ∧
    ∃ lines : List String, (∀ line ∈ lines, '\n' ∉ line.toList) ∧
      "=0\x7bb\x7d\n(&h)\n" = String.join (lines.map fun line => line ++ "\n") ∧
      typesReport (.ofLists [] [("m", "parser.struct-prefix = 's'".toUTF8)]) (some "m") lines =
        ⟨0, "%s0\nfn(...) -> i16\n"⟩ := by
  have hLoaded : loaded (.ofLists [] [("m", "parser.struct-prefix = 's'".toUTF8)]) "m" =
      .ok { structPrefix := "s" } := by
    decide +kernel
  have hTypes : typesReport (.ofLists [] [("m", "parser.struct-prefix = 's'".toUTF8)]) (some "m")
      ["=00\x7bB\x7d", "(v&H)"] = ⟨0, "%s0\nfn(...) -> i16\n"⟩ := by
    decide +kernel
  have hSpellings : spellingsReport (.ofLists [] [("m", "parser.struct-prefix = 's'".toUTF8)])
      (some "m") ["=00\x7bB\x7d", "(v&H)"] = ⟨0, "=0\x7bb\x7d\n(&h)\n"⟩ := by
    decide +kernel
  have hGiven : loaded (.ofLists [] [("m", "parser.struct-prefix = 's'".toUTF8)])
      ((some "m").getD Config.fileName) = .ok { structPrefix := "s" } := hLoaded
  obtain ⟨-, -, -, -, hLines⟩ := shows_lists hGiven ["=00\x7bB\x7d", "(v&H)"]
  rw [hTypes, hSpellings] at hLines
  obtain ⟨lines, hNewline, hOutput, -, hSame⟩ := hLines rfl
  exact ⟨hLoaded, hTypes, lines, hNewline, hOutput, hSame⟩

end Commands

end CompactType.CommandLine
