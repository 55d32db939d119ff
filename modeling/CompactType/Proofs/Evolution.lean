import CompactType.Proofs.Effects
import CompactType.Proofs.Printable
import CompactType.Proofs.Shape

/-!
# How a table evolves

What becomes of the types that a table has, whatever is done with it. A declared struct may get its
body, once; all else about a type stays, its printed form included. A parse is no exception at any
time: it comes down to elementary operations on the table.
-/

set_option autoImplicit false

namespace CompactType

/-- The operation on a table that a call amounts to. -/
def Call.operation : Call Nat → TypeTable.Operation
  | .made request _ => .make request
  | .body id fields => .complete id fields

namespace TypeTable

section Elementary

def Operation.IsParse : Operation → Prop
  | parse .. => True
  | intern _ | make _ | complete .. => False

/-- The elementary operations that an operation consists of. -/
def Operation.steps (t : TypeTable) : Operation → List Operation
  | parse spec config => (Journal.calls (t.parse spec config).journal).map Call.operation
  | elementary => [elementary]

def stepsAlong (t : TypeTable) : List Operation → List Operation
  | [] => []
  | operation :: rest => operation.steps t ++ stepsAlong (operation.apply t) rest

theorem replay_eq_after (t : TypeTable) (calls : List (Call Nat)) :
    factory.replay t calls = t.after (calls.map Call.operation) := by
  rw [after, List.foldl_map, Factory.replay]
  congr 1
  funext t call
  cases call <;> rfl

theorem after_steps (t : TypeTable) (operation : Operation) :
    t.after (operation.steps t) = operation.apply t := by
  cases operation with
  | parse spec config => rw [Operation.steps, ← replay_eq_after, Operation.apply, parse_store]
  | _ => rfl

theorem not_isParse_of_mem_steps {t : TypeTable} {operation o : Operation}
    (h : o ∈ operation.steps t) : ¬o.IsParse := by
  cases operation with
  | parse spec config =>
    obtain ⟨call, -, rfl⟩ := List.mem_map.mp h
    cases call <;> simp [Call.operation, Operation.IsParse]
  | _ =>
    obtain rfl := List.mem_singleton.mp h
    exact id

theorem after_stepsAlong (t : TypeTable) (operations : List Operation) :
    t.after (t.stepsAlong operations) = t.after operations := by
  induction operations generalizing t with
  | nil => rfl
  | cons operation rest ih => rw [stepsAlong, after_append, after_steps, ih, after_cons]

theorem not_isParse_of_mem_stepsAlong {t : TypeTable} {operations : List Operation} {o : Operation}
    (h : o ∈ t.stepsAlong operations) : ¬o.IsParse := by
  induction operations generalizing t with
  | nil => cases h
  | cons operation rest ih =>
    obtain h | h := List.mem_append.mp h
    · exact not_isParse_of_mem_steps h
    · exact ih h

end Elementary

/-- What it means to give a type a body. Success changes one type only, failure changes nothing. -/
structure Completion (t : TypeTable) (id : Nat) (fields : List Nat) : Prop where
  ok_iff : (t.setBody id fields).1 = .ok () ↔ ∃ name, t.kind? id = some (.struct (some name) none)
  bodyAlreadySet_iff : ∀ label, (t.setBody id fields).1 = .error (.bodyAlreadySet label) ↔
    ∃ name body, t.kind? id = some (.struct (some name) (some body)) ∧ label = "%" ++ name
  notAStruct_iff : ∀ label, (t.setBody id fields).1 = .error (.notAStruct label) ↔
    t.text id = .ok label ∧ ¬t.IsNamed id
  /-- A type that cannot be printed is refused for that. -/
  refused : ∀ refusal, t.text id = .error refusal → (t.setBody id fields).1 = .error refusal
  unchanged : ∀ refusal, (t.setBody id fields).1 = .error refusal → (t.setBody id fields).2 = t
  changed : (t.setBody id fields).1 = .ok () →
    (t.setBody id fields).2.size = t.size ∧ (t.setBody id fields).2.interned = t.interned ∧
      (∀ i, i ≠ id → (t.setBody id fields).2.find? i = t.find? i) ∧
      ∃ i name, t.find? id = some ⟨i, .struct (some name) none⟩ ∧
        (t.setBody id fields).2.find? id = some ⟨i, .struct (some name) (some fields)⟩

section Completion

variable {t : TypeTable} {id : Nat}

theorem setBody_of_text {refusal : Refusal} (h : t.text id = .error refusal) (fields : List Nat) :
    t.setBody id fields = (.error refusal, t) := by
  simp [setBody, complete, h, bind, Except.bind]

theorem setBody_of_completed {name : String} {body : List Nat}
    (h : t.kind? id = some (.struct (some name) (some body))) (fields : List Nat) :
    t.setBody id fields = (.error (.bodyAlreadySet ("%" ++ name)), t) := by
  simp [setBody, complete, text_of_named h, kind, h, bind, Except.bind, throw, throwThe,
    MonadExceptOf.throw]

theorem setBody_of_unnamed {k : Kind} {label : String} (hKind : t.kind? id = some k)
    (hNot : k.isNamed = false) (hText : t.text id = .ok label) (fields : List Nat) :
    t.setBody id fields = (.error (.notAStruct label), t) := by
  cases k with
  | struct name body =>
    cases name with
    | some name => cases hNot
    | none =>
      simp [setBody, complete, hText, kind, hKind, bind, Except.bind, throw, throwThe,
        MonadExceptOf.throw]
  | _ =>
    simp [setBody, complete, hText, kind, hKind, bind, Except.bind, throw, throwThe,
      MonadExceptOf.throw]

theorem find?_of_kind? {k : Kind} (h : t.kind? id = some k) : ∃ i, t.find? id = some ⟨i, k⟩ := by
  obtain ⟨⟨i, k⟩, hEntry, rfl⟩ := Option.map_eq_some_iff.mp h
  exact ⟨i, hEntry⟩

theorem completion_of_declared {name : String} (h : t.kind? id = some (.struct (some name) none))
    (fields : List Nat) : Completion t id fields := by
  have hSet : t.setBody id fields =
      (.ok (), t.setKind id (.struct (some name) (some fields))) := setBody_of_declared h
  have hNamed : t.IsNamed id := ⟨name, none, h⟩
  constructor
  · simp [hSet, h]
  · simp [hSet, h]
  · simp [hSet, hNamed]
  · simp [text_of_named h]
  · simp [hSet]
  · intro _
    obtain ⟨i, hEntry⟩ := find?_of_kind? h
    rw [hSet]
    refine ⟨size_setKind .., rfl, fun j hj => ?_, i, name, hEntry, ?_⟩
    · rw [find?_setKind, if_neg hj]
    · simp [find?_setKind, hEntry]

theorem completion_of_refusal {fields : List Nat} {refusal : Refusal}
    (h : t.setBody id fields = (.error refusal, t))
    (hDeclared : ∀ name, t.kind? id ≠ some (.struct (some name) none))
    (hAlready : ∀ label, refusal = .bodyAlreadySet label ↔
      ∃ name body, t.kind? id = some (.struct (some name) (some body)) ∧ label = "%" ++ name)
    (hNot : ∀ label, refusal = .notAStruct label ↔ t.text id = .ok label ∧ ¬t.IsNamed id)
    (hText : ∀ refusal', t.text id = .error refusal' → refusal = refusal') :
    Completion t id fields := by
  constructor
  · simp [h, hDeclared]
  · simpa [h] using hAlready
  · simpa [h] using hNot
  · simpa [h] using hText
  · simp [h]
  · simp [h]

theorem completion (t : TypeTable) (id : Nat) (fields : List Nat) : Completion t id fields := by
  by_cases hNamed : t.IsNamed id
  · obtain ⟨name, body, hKind⟩ := hNamed
    cases body with
    | none => exact completion_of_declared hKind fields
    | some body =>
      refine completion_of_refusal (setBody_of_completed hKind fields) ?_ ?_ ?_ ?_
      · simp [hKind]
      · simp [hKind, eq_comm]
      · simp [IsNamed, hKind]
      · simp [text_of_named hKind]
  · have hNone (name : String) (body : Option (List Nat)) :
        t.kind? id ≠ some (.struct (some name) body) := fun h => hNamed ⟨name, body, h⟩
    cases hText : t.text id with
    | error refusal =>
      refine completion_of_refusal (setBody_of_text hText fields) (hNone · none) ?_ ?_ ?_
      · obtain rfl | ⟨missing, rfl⟩ := textWithin_eq_error hText <;> simp [hNone]
      · obtain rfl | ⟨missing, rfl⟩ := textWithin_eq_error hText <;> simp [hText]
      · simp [hText]
    | ok label =>
      obtain ⟨k, -, -, hKind, -⟩ := textWithin_eq_ok hText
      have hNot : k.isNamed = false := by
        cases k with
        | struct name body =>
          cases name with
          | some name => exact absurd hKind (hNone name body)
          | none => rfl
        | _ => rfl
      refine completion_of_refusal (setBody_of_unnamed hKind hNot hText fields) (hNone · none)
        ?_ ?_ ?_
      · simp [hNone]
      · simp [hText, hNamed]
      · simp [hText]

end Completion

section Course

/-- What the kind of a type goes through along operations: either it stays, or one of the operations
is that which gives the body to the struct, and it stays before and after. -/
inductive Course (t : TypeTable) (operations : List Operation) (id : Nat) : Prop where
  | kept :
    (∀ n, (t.after (operations.take n)).kind? id = t.kind? id) → Course t operations id
  | completed (before rest : List Operation) (name : String) (fields : List Nat) :
    operations = before ++ .complete id fields :: rest →
    ((t.after before).setBody id fields).1 = .ok () →
    (∀ n ≤ before.length,
      (t.after (operations.take n)).kind? id = some (.struct (some name) none)) →
    (∀ n > before.length,
      (t.after (operations.take n)).kind? id = some (.struct (some name) (some fields))) →
    Course t operations id

variable {t : TypeTable} {id : Nat}

theorem kind?_apply (t : TypeTable) (operation : Operation) (h : id < t.size) :
    (operation.apply t).kind? id = t.kind? id ∨
      ∃ name fields, operation = .complete id fields ∧ (t.setBody id fields).1 = .ok () ∧
        t.kind? id = some (.struct (some name) none) ∧
        (operation.apply t).kind? id = some (.struct (some name) (some fields)) := by
  obtain ⟨k, hKind⟩ := exists_kind?_of_lt h
  cases operation with
  | intern k' => exact .inl ((kind?_intern_of_kind? hKind).trans hKind.symm)
  | make request => exact .inl ((kind?_make_of_kind? hKind request).trans hKind.symm)
  | complete i fields =>
    obtain hSame | ⟨name, hDeclared, hSet⟩ := t.setBody_cases i fields
    · exact .inl (by rw [Operation.apply, hSame])
    · rw [Operation.apply, hSet, kind?_setKind]
      by_cases hi : id = i
      · subst hi
        refine .inr ⟨name, fields, rfl, ?_, hDeclared, by simp [hDeclared]⟩
        rw [setBody_of_declared hDeclared]
      · exact .inl (if_neg hi)
  | parse spec config =>
    obtain ⟨calls, waiting, -, hStore, hConforms, -⟩ :=
      Parse.exists_conforms factory config spec t
    rw [Operation.apply, parse, hStore]
    exact .inl ((effect_replay hConforms).kept id h)

theorem course (t : TypeTable) (operations : List Operation) (h : id < t.size) :
    Course t operations id := by
  induction operations generalizing t with
  | nil => exact .kept fun n => by rw [List.take_nil, after_nil]
  | cons operation rest ih =>
    have hLater := ih (operation.apply t) (Nat.lt_of_lt_of_le h (grows_apply t operation).size_le)
    obtain hSame | ⟨name, fields, rfl, hOk, hBefore, hAfter⟩ := t.kind?_apply operation h
    · cases hLater with
      | kept hKept =>
        refine .kept fun n => ?_
        cases n with
        | zero => rfl
        | succ n => exact (hKept n).trans hSame
      | completed before rest' name fields hSplit hOk hBefore hAfter =>
        refine .completed (operation :: before) rest' name fields
          (congrArg (operation :: ·) hSplit) hOk ?_ ?_
        · intro n hn
          cases n with
          | zero => exact hSame.symm.trans (hBefore 0 (Nat.zero_le _))
          | succ n => exact hBefore n (Nat.le_of_succ_le_succ hn)
        · intro n hn
          cases n with
          | zero => exact absurd hn (Nat.not_lt_zero _)
          | succ n => exact hAfter n (Nat.lt_of_succ_lt_succ hn)
    · refine .completed [] rest name fields rfl hOk ?_ ?_
      · intro n hn
        obtain rfl : n = 0 := Nat.le_zero.mp hn
        exact hBefore
      · intro n hn
        obtain ⟨n, rfl⟩ := Nat.exists_eq_succ_of_ne_zero (n := n) (by omega)
        exact (grows_after _ (rest.take n)).completed hAfter

end Course

variable {t t' : TypeTable} {id : Nat}

theorem Grows.classOf (h : Grows t t') (hLt : id < t.size) : t'.classOf id = t.classOf id := by
  obtain ⟨k, hKind⟩ := exists_kind?_of_lt hLt
  obtain hSame | ⟨name, fields, rfl, hSet⟩ := h id k hKind
  · simp [TypeTable.classOf, hSame, hKind]
  · simp [TypeTable.classOf, hSet, hKind, Kind.typeClass]

theorem Grows.structName? (h : Grows t t') (hLt : id < t.size) :
    (t'.kind? id).map Kind.structName? = (t.kind? id).map Kind.structName? := by
  obtain ⟨k, hKind⟩ := exists_kind?_of_lt hLt
  obtain hSame | ⟨name, fields, rfl, hSet⟩ := h id k hKind
  · rw [hSame, hKind]
  · rw [hSet, hKind]
    rfl

/-- Whatever is done with a table, it keeps its types. A type changes at most once, when it is a
declared struct and gets its body. This holds in the middle of a parse as well, which is but a list
of elementary operations. -/
theorem evolution (t : TypeTable) (operations : List Operation) :
    (t.after (t.stepsAlong operations) = t.after operations ∧
      ∀ o ∈ t.stepsAlong operations, ¬o.IsParse) ∧
    t.size ≤ (t.after operations).size ∧
    (∀ id < t.size,
      Course t operations id ∧ Course t (t.stepsAlong operations) id ∧
      (t.after operations).classOf id = t.classOf id ∧
      ((t.after operations).kind? id).map Kind.structName? = (t.kind? id).map Kind.structName? ∧
      ∀ label, t.text id = .ok label → (t.after operations).text id = .ok label) ∧
    (∀ id, (∃ label, t.text id = .ok label) ↔ t.Printable id) ∧
    ∀ id fields, Completion t id fields := by
  have hGrows := grows_after t operations
  refine ⟨⟨t.after_stepsAlong operations, fun o => not_isParse_of_mem_stepsAlong⟩, hGrows.size_le,
    ?_, fun id => exists_text_iff, t.completion⟩
  intro id hLt
  exact ⟨t.course operations hLt, t.course _ hLt, hGrows.classOf hLt, hGrows.structName? hLt,
    fun label hText => hGrows.text hGrows.size_le hText⟩

example :
    let t := initial.after [.make (.declare "node"), .make (.record [9, 0])]
    let t' := t.after [.complete 9 [1], .complete 9 [2], .parse "=0\x7b*%0\x7d" .shallow]
    t.text 10 = t'.text 10 ∧ t.kind? 9 ≠ t'.kind? 9 ∧
      t'.kind? 9 = some (.struct (some "node") (some [1])) := by
  decide +kernel

end TypeTable

end CompactType
