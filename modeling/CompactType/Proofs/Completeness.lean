import CompactType.Proofs.SpelledForms

/-!
# Spelled texts are read

A parser that builds trees reads every text that the grammar allows, as long as the nesting left
suffices. It stops right behind the text and gives its outline, and the definitions in the text
become drafts.
-/

set_option autoImplicit false

namespace CompactType.Parse

variable {sub : ElementParser (List Draft) Spec} {s : State (List Draft) Spec}
  {pos : Nat} {rest : List Char}

theorem leads_vararg (config : Config) (depth pos : Nat) (rest : List Char) (drafts : List Draft) :
    Leads (element Spec.factory config (depth + 1)) (draftState ⟨pos, '&' :: rest⟩ drafts)
      (some .vararg) (draftState ⟨pos + 1, rest⟩ drafts) :=
  Leads.dispatch .ampersand (Leads.pure _ _)

theorem leads_void (config : Config) (depth pos : Nat) (rest : List Char) (drafts : List Draft) :
    Leads (element Spec.factory config (depth + 1)) (draftState ⟨pos, 'v' :: rest⟩ drafts)
      (some (.type (.scalar .void))) (draftState ⟨pos + 1, rest⟩ drafts) :=
  Leads.dispatch (.scalar .void) (leads_request _ rfl).map

theorem leadsAll_cons {closing c : Char} (hc : c ≠ closing) {last : Nat} {more : List Char}
    {drafts drafts' : List Draft} {e : Element Spec} {elements : List (Element Spec)}
    (hHead : Leads sub (draftState ⟨pos, c :: more ++ rest⟩ drafts) (some e)
      (draftState ⟨last, rest⟩ drafts'))
    (hTail : LeadsAll sub closing (draftState ⟨last, rest⟩ drafts') elements s) :
    LeadsAll sub closing (draftState ⟨pos, c :: more ++ rest⟩ drafts) (e :: elements) s := by
  refine LeadsAll.cons ?_ ?_ hHead hTail
  · simpa [draftState, Cursor.looksAt, Cursor.peek?]
  · simp only [draftState, List.length_append, List.length_cons]
    omega

theorem leadsAll_symbol {c : Char} {last : Nat} {drafts drafts' : List Draft} {e : Element Spec}
    (h : Leads sub (draftState ⟨pos, c :: rest⟩ drafts) (some e)
      (draftState ⟨last, rest⟩ drafts')) (hc : c ≠ ')') :
    LeadsAll sub ')' (draftState ⟨pos, c :: rest⟩ drafts) [e]
      (draftState ⟨last, rest⟩ drafts') :=
  @leadsAll_cons sub _ pos rest ')' c hc last [] drafts drafts' e [] h (LeadsAll.nil _)

section Forms

variable (config : Config) {depth : Nat} {elem run body result : List Char} {last : Nat}
  {drafts drafts' : List Draft}

theorem leads_element_array {t : Spec} {count : Nat}
    (hElem : Leads (element Spec.factory config depth)
      (draftState ⟨pos + 1, elem ++ 'x' :: (run ++ ']' :: rest)⟩ drafts) (some (.type t))
      (draftState ⟨pos + 1 + elem.length, 'x' :: (run ++ ']' :: rest)⟩ drafts'))
    (hValue : t.typeClass.isValue = true) (hRun : Numeral run count) (hPos : 1 ≤ count)
    (hCount : count < UInt64.size) :
    Leads (element Spec.factory config (depth + 1))
      (draftState ⟨pos, '[' :: (elem ++ 'x' :: (run ++ [']'])) ++ rest⟩ drafts)
      (some (.type (.array t (UInt64.ofNat count))))
      (draftState ⟨pos + ('[' :: (elem ++ 'x' :: (run ++ [']']))).length, rest⟩ drafts') := by
  rw [show '[' :: (elem ++ 'x' :: (run ++ [']'])) ++ rest =
      '[' :: (elem ++ 'x' :: (run ++ ']' :: rest)) by simp,
    show pos + ('[' :: (elem ++ 'x' :: (run ++ [']']))).length =
      pos + 1 + elem.length + 1 + run.length + 1 by simp; omega]
  exact Leads.dispatch .openBracket (leads_array hElem hValue hRun hPos hCount).map

theorem leads_element_vector {t : Spec} {count : Nat}
    (hElem : Leads (element Spec.factory config depth)
      (draftState ⟨pos + 1, elem ++ 'x' :: (run ++ '>' :: rest)⟩ drafts) (some (.type t))
      (draftState ⟨pos + 1 + elem.length, 'x' :: (run ++ '>' :: rest)⟩ drafts'))
    (hLane : t.typeClass.isLane = true) (hRun : Numeral run count) (hPos : 1 ≤ count)
    (hCount : count < UInt32.size) :
    Leads (element Spec.factory config (depth + 1))
      (draftState ⟨pos, '<' :: (elem ++ 'x' :: (run ++ ['>'])) ++ rest⟩ drafts)
      (some (.type (.vector t (UInt32.ofNat count))))
      (draftState ⟨pos + ('<' :: (elem ++ 'x' :: (run ++ ['>']))).length, rest⟩ drafts') := by
  rw [show '<' :: (elem ++ 'x' :: (run ++ ['>'])) ++ rest =
      '<' :: (elem ++ 'x' :: (run ++ '>' :: rest)) by simp,
    show pos + ('<' :: (elem ++ 'x' :: (run ++ ['>']))).length =
      pos + 1 + elem.length + 1 + run.length + 1 by simp; omega]
  exact Leads.dispatch .less (leads_vector hElem hLane hRun hPos hCount).map

theorem leads_element_record {specs : List Spec}
    (hFields : LeadsAll (element Spec.factory config depth) '}'
      (draftState ⟨pos + 1, body ++ '}' :: rest⟩ drafts) (specs.map Element.type)
      (draftState ⟨pos + 1 + body.length, '}' :: rest⟩ drafts'))
    (hNonempty : specs ≠ []) (hValue : ∀ t ∈ specs, t.typeClass.isValue = true) :
    Leads (element Spec.factory config (depth + 1))
      (draftState ⟨pos, '{' :: (body ++ ['}']) ++ rest⟩ drafts) (some (.type (.record specs)))
      (draftState ⟨pos + ('{' :: (body ++ ['}'])).length, rest⟩ drafts') := by
  rw [show '{' :: (body ++ ['}']) ++ rest = '{' :: (body ++ '}' :: rest) by simp,
    show pos + ('{' :: (body ++ ['}'])).length = pos + 1 + body.length + 1 by simp; omega]
  exact Leads.dispatch .openBrace
    ((leads_fields hFields hNonempty hValue).bind (leads_request _ rfl)).map

theorem leads_element_define {specs : List Spec} {inner : List Draft}
    (hRun : Numeral run drafts.length) (hLimit : drafts.length < UInt32.size)
    (hFields : LeadsAll (element Spec.factory config depth) '}'
      (draftState ⟨pos + 1 + run.length + 1, body ++ '}' :: rest⟩
        (drafts ++ [⟨config.structName drafts.length, none⟩]))
      (specs.map Element.type)
      (draftState ⟨pos + 1 + run.length + 1 + body.length, '}' :: rest⟩
        (drafts ++ [⟨config.structName drafts.length, none⟩] ++ inner)))
    (hNonempty : specs ≠ []) (hValue : ∀ t ∈ specs, t.typeClass.isValue = true) :
    Leads (element Spec.factory config (depth + 1))
      (draftState ⟨pos, '=' :: (run ++ '{' :: (body ++ ['}'])) ++ rest⟩ drafts)
      (some (.type (.reference drafts.length)))
      (draftState ⟨pos + ('=' :: (run ++ '{' :: (body ++ ['}']))).length, rest⟩
        (drafts ++ ⟨config.structName drafts.length, some specs⟩ :: inner)) := by
  rw [List.append_assoc drafts, List.singleton_append] at hFields
  rw [show '=' :: (run ++ '{' :: (body ++ ['}'])) ++ rest =
      '=' :: (run ++ '{' :: (body ++ '}' :: rest)) by simp,
    show pos + ('=' :: (run ++ '{' :: (body ++ ['}']))).length =
      pos + 1 + run.length + 1 + body.length + 1 by simp; omega]
  exact Leads.dispatch .equals (leads_definition hRun hLimit hFields hNonempty hValue).map

end Forms

theorem leads_element_function (config : Config) {depth n m : Nat} (init : List (Element Spec))
    (before : List Char) {result : List Char} {r : Spec} (h : Spells n result r m)
    {params : List Spec} {variadic : Bool} {drafts drafts' drafts₁ : List Draft}
    (hInit : LeadsAll (element Spec.factory config depth) ')'
      (draftState ⟨pos + 1, before ++ (result ++ ')' :: rest)⟩ drafts) init
      (draftState ⟨pos + 1 + before.length, result ++ ')' :: rest⟩ drafts₁))
    (hRet : Leads (element Spec.factory config depth)
      (draftState ⟨pos + 1 + before.length, result ++ ')' :: rest⟩ drafts₁)
      (some (.type r.outline))
      (draftState ⟨pos + 1 + before.length + result.length, ')' :: rest⟩ drafts'))
    (hNonempty : init ≠ [])
    (hAmounts : ∀ placed : List (Placed Spec), placed.map Placed.element = init →
      Amounts placed.reverse params variadic)
    (hValue : ∀ t ∈ params, t.typeClass.isValue = true) (hr : r.typeClass ≠ .function) :
    Leads (element Spec.factory config (depth + 1))
      (draftState ⟨pos, '(' :: (before ++ (result ++ [')'])) ++ rest⟩ drafts)
      (some (.type (.function params r.outline variadic)))
      (draftState ⟨pos + ('(' :: (before ++ (result ++ [')']))).length, rest⟩ drafts') := by
  have hReturned : LeadsAll (element Spec.factory config depth) ')'
      (draftState ⟨pos + 1 + before.length, result ++ ')' :: rest⟩ drafts₁) [.type r.outline]
      (draftState ⟨pos + 1 + before.length + result.length, ')' :: rest⟩ drafts') := by
    obtain ⟨c, more, rfl, -, -, hc, -⟩ := h.exists_cons
    exact leadsAll_cons hc hRet (LeadsAll.nil _)
  rw [show '(' :: (before ++ (result ++ [')'])) ++ rest =
      '(' :: (before ++ (result ++ ')' :: rest)) by simp,
    show pos + ('(' :: (before ++ (result ++ [')']))).length =
      pos + 1 + before.length + result.length + 1 by simp; omega]
  exact Leads.dispatch .openParen (leads_function init (hInit.append hReturned) hNonempty hAmounts
    hValue (by simpa using hr)).map

mutual

theorem leads_element (config : Config) {n m : Nat} {text : List Char} {t : Spec}
    (h : Spells n text t m) (hn : n ≤ UInt32.size) {depth : Nat} (hDepth : t.nesting ≤ depth)
    (pos : Nat) (rest : List Char) (hRest : NoDigit rest) (drafts : List Draft)
    (hDrafts : drafts.length = n) :
    Leads (element Spec.factory config depth) (draftState ⟨pos, text ++ rest⟩ drafts)
      (some (.type t.outline))
      (draftState ⟨pos + text.length, rest⟩ (drafts ++ t.drafts config)) := by
  obtain ⟨depth, rfl⟩ := Spec.exists_succ_of_nesting_le hDepth
  cases h with
  | scalar letter =>
    rw [Spec.drafts, List.append_nil]
    exact Leads.dispatch (.scalar letter) (leads_request _ rfl).map
  | @pointer _ _ elem e h =>
    have hElem := leads_element config h hn (Nat.le_of_succ_le_succ hDepth) (pos + 1) rest hRest
      drafts hDrafts
    rw [show pos + ('*' :: elem).length = pos + 1 + elem.length by simp; omega]
    exact Leads.dispatch .star ((hElem.elementType _).bind (leads_request _ rfl)).map
  | @array _ _ count elem run e h hValue hRun hPos hCount =>
    have hElem := leads_element config h hn (Nat.le_of_succ_le_succ hDepth) (pos + 1)
      ('x' :: (run ++ ']' :: rest)) (noDigit_cons.mpr rfl) drafts hDrafts
    exact leads_element_array config hElem (by simpa using hValue) hRun hPos hCount
  | @vector _ _ count elem run e h hLane hRun hPos hCount =>
    have hElem := leads_element config h hn (Nat.le_of_succ_le_succ hDepth) (pos + 1)
      ('x' :: (run ++ '>' :: rest)) (noDigit_cons.mpr rfl) drafts hDrafts
    exact leads_element_vector config hElem (by simpa using hLane) hRun hPos hCount
  | @record _ _ body fields h hNonempty hValue =>
    have hFields := leadsAll_element config h hn (Nat.le_of_succ_le_succ hDepth) (.inl rfl)
      (pos + 1) ('}' :: rest) (noDigit_cons.mpr rfl) drafts hDrafts
    exact leads_element_record config hFields (Spec.outlines_ne_nil hNonempty)
      (Spec.isValue_of_mem_outlines hValue)
  | @define _ _ run body fields hRun hLimit h hNonempty hValue =>
    subst hDrafts
    have hFields := leadsAll_element config h hLimit (Nat.le_of_succ_le_succ hDepth) (.inl rfl)
      (pos + 1 + run.length + 1) ('}' :: rest) (noDigit_cons.mpr rfl)
      (drafts ++ [⟨config.structName drafts.length, none⟩]) (by simp)
    exact leads_element_define config hRun hLimit hFields (Spec.outlines_ne_nil hNonempty)
      (Spec.isValue_of_mem_outlines hValue)
  | @reference _ number run hRun hNumber =>
    rw [Spec.drafts, List.append_nil,
      show pos + ('%' :: run).length = pos + 1 + run.length by simp; omega]
    exact Leads.dispatch .percent
      (leads_reference hRun (hDrafts.symm ▸ hNumber) (hDrafts.symm ▸ hn) hRest).map
  | @nullary _ _ result r h hr =>
    have hInner := (Spec.nesting_function_le_iff.mp hDepth).2
    have hRet := leads_element config h hn hInner (pos + 1 + 1) (')' :: rest)
      (noDigit_cons.mpr rfl) drafts hDrafts
    obtain ⟨depth, rfl⟩ := Spec.exists_succ_of_nesting_le hInner
    have hVoid := leads_void config depth (pos + 1) (result ++ ')' :: rest) drafts
    exact leads_element_function config [.type (.scalar .void)] ['v'] h
      (leadsAll_symbol hVoid (by decide)) hRet (by simp) (fun _ => amounts_void)
      (by simp [Spec.outlines]) hr
  | @nullaryVariadic _ _ result r h hr =>
    have hInner := (Spec.nesting_function_le_iff.mp hDepth).2
    have hRet := leads_element config h hn hInner (pos + 1 + 1 + 1) (')' :: rest)
      (noDigit_cons.mpr rfl) drafts hDrafts
    obtain ⟨depth, rfl⟩ := Spec.exists_succ_of_nesting_le hInner
    have hVoid := leads_void config depth (pos + 1) ('&' :: (result ++ ')' :: rest)) drafts
    have hMark := leads_vararg config depth (pos + 1 + 1) (result ++ ')' :: rest) drafts
    exact leads_element_function config [.type (.scalar .void), .vararg] ['v', '&'] h
      ((leadsAll_symbol hVoid (by decide)).append (leadsAll_symbol hMark (by decide))) hRet
      (by simp) (fun _ => amounts_void_vararg) (by simp [Spec.outlines]) hr
  | @function _ k _ list result params r hParams hNonempty hValue h hr =>
    have hLength := hParams.length_draftsAll config
    have hInner := Spec.nesting_function_le_iff.mp hDepth
    have hFirst := leadsAll_element config hParams hn hInner.1 (.inr rfl) (pos + 1)
      (result ++ ')' :: rest) (h.noDigit _) drafts hDrafts
    have hRet := leads_element config h (hParams.le_limit hn) hInner.2 (pos + 1 + list.length)
      (')' :: rest) (noDigit_cons.mpr rfl) (drafts ++ Spec.draftsAll config params) (by simp; omega)
    rw [Spec.drafts, ← List.append_assoc drafts]
    exact leads_element_function config ((Spec.outlines params).map Element.type) list h hFirst hRet
      (by simpa using Spec.outlines_ne_nil hNonempty)
      (fun _ hPlaced => amounts_params hPlaced (Spec.isValue_of_mem_outlines hValue))
      (Spec.isValue_of_mem_outlines hValue) hr
  | @variadic _ k _ list result params r hParams hValue h hr =>
    have hLength := hParams.length_draftsAll config
    have hInner := Spec.nesting_function_le_iff.mp hDepth
    have hFirst := leadsAll_element config hParams hn hInner.1 (.inr rfl) (pos + 1)
      ('&' :: (result ++ ')' :: rest)) (noDigit_cons.mpr rfl) drafts hDrafts
    have hRet := leads_element config h (hParams.le_limit hn) hInner.2 (pos + 1 + list.length + 1)
      (')' :: rest) (noDigit_cons.mpr rfl) (drafts ++ Spec.draftsAll config params) (by simp; omega)
    obtain ⟨depth, rfl⟩ := Spec.exists_succ_of_nesting_le hInner.2
    have hMark := leads_vararg config depth (pos + 1 + list.length) (result ++ ')' :: rest)
      (drafts ++ Spec.draftsAll config params)
    have hInit := hFirst.append (leadsAll_symbol hMark (by decide))
    rw [show list ++ '&' :: (result ++ ')' :: rest) = list ++ ['&'] ++ (result ++ ')' :: rest) by
        simp,
      show pos + 1 + list.length + 1 = pos + 1 + (list ++ ['&']).length by simp; omega] at hInit
    rw [show pos + 1 + list.length + 1 = pos + 1 + (list ++ ['&']).length by simp; omega] at hRet
    rw [Spec.drafts, ← List.append_assoc drafts,
      show list ++ '&' :: (result ++ [')']) = list ++ ['&'] ++ (result ++ [')']) by simp]
    exact leads_element_function config ((Spec.outlines params).map Element.type ++ [.vararg])
      (list ++ ['&']) h hInit hRet (by simp)
      (fun _ hPlaced => amounts_params_vararg hPlaced (Spec.isValue_of_mem_outlines hValue))
      (Spec.isValue_of_mem_outlines hValue) hr
termination_by sizeOf t

theorem leadsAll_element (config : Config) {n m : Nat} {text : List Char} {specs : List Spec}
    (h : SpellsAll n text specs m) (hn : n ≤ UInt32.size) {depth : Nat}
    (hDepth : Spec.nestings specs ≤ depth) {closing : Char}
    (hClosing : closing = '}' ∨ closing = ')') (pos : Nat) (rest : List Char)
    (hRest : NoDigit rest) (drafts : List Draft) (hDrafts : drafts.length = n) :
    LeadsAll (element Spec.factory config depth) closing (draftState ⟨pos, text ++ rest⟩ drafts)
      ((Spec.outlines specs).map Element.type)
      (draftState ⟨pos + text.length, rest⟩ (drafts ++ Spec.draftsAll config specs)) := by
  cases h with
  | nil =>
    rw [Spec.draftsAll, List.append_nil]
    exact LeadsAll.nil _
  | @cons _ k _ head tail t specs hHead hTail =>
    obtain ⟨c, more, hText, -, hBrace, hParen, -⟩ := hHead.exists_cons
    have hLength := hHead.length_drafts config
    have hFirst := leads_element config hHead hn (Nat.le_trans (Nat.le_max_left _ _) hDepth) pos
      (tail ++ rest) (hTail.noDigit hRest) drafts hDrafts
    have hSecond := leadsAll_element config hTail (hHead.le_limit hn)
      (Nat.le_trans (Nat.le_max_right _ _) hDepth) hClosing (pos + head.length) rest hRest
      (drafts ++ Spec.drafts config t) (by simp; omega)
    rw [Spec.draftsAll, ← List.append_assoc drafts, List.append_assoc head, List.length_append,
      ← Nat.add_assoc]
    subst hText
    refine leadsAll_cons ?_ hFirst hSecond
    rcases hClosing with rfl | rfl <;> assumption
termination_by sizeOf specs

end

/-- Whatever is spelled is accepted. -/
theorem run_drafts_of_spells {config : Config} {spec : String} {t : Spec} {m : Nat}
    (h : Spells 0 spec.toList t m) (hNesting : t.nesting ≤ config.maxDepth) :
    (run Spec.factory config spec []).outcome = .ok t.outline ∧
      (run Spec.factory config spec []).store = t.drafts config := by
  have hElement := leads_element config h (Nat.zero_le _) hNesting 0 [] noDigit_nil [] rfl
  rw [List.append_nil, List.nil_append] at hElement
  have hWhole : Leads (whole Spec.factory config) (draftState ⟨0, spec.toList⟩ []) t.outline
      (draftState ⟨0 + spec.toList.length, []⟩ (t.drafts config)) :=
    (hElement.elementType _).bind ((Leads.atEnd _).bind (Leads.pure _ _))
  obtain ⟨journal, hRun⟩ := hWhole #[.begun spec]
  have hStart : (whole Spec.factory config).run (start spec []) = _ := hRun
  rw [run, hStart]
  exact ⟨rfl, rfl⟩

end CompactType.Parse
