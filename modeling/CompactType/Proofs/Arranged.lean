import CompactType.Proofs.Grammar

/-!
# Arranged trees

The rules of the grammar without the text: structs are numbered from left to right, references go
to structs defined further left, and forms hold types of the right classes. The numbers have no
limit here; what a text spells is arranged.
-/

set_option autoImplicit false

namespace CompactType

mutual

/-- `Arranged n spec m`: the tree is arranged, with `n` structs defined before it and `m` after
it. -/
inductive Arranged : Nat → Spec → Nat → Prop where
  | scalar {n : Nat} (k : Scalar) : Arranged n (.scalar k) n
  | pointer {n m : Nat} {e : Spec} : Arranged n e m → Arranged n (.pointer e) m
  | array {n m : Nat} {e : Spec} {count : UInt64} :
    Arranged n e m → e.typeClass.isValue = true → 0 < count → Arranged n (.array e count) m
  | vector {n m : Nat} {e : Spec} {count : UInt32} :
    Arranged n e m → e.typeClass.isLane = true → 0 < count → Arranged n (.vector e count) m
  | record {n m : Nat} {fields : List Spec} :
    ArrangedAll n fields m → fields ≠ [] → (∀ f ∈ fields, f.typeClass.isValue = true) →
    Arranged n (.record fields) m
  | define {n m : Nat} {fields : List Spec} :
    ArrangedAll (n + 1) fields m → fields ≠ [] → (∀ f ∈ fields, f.typeClass.isValue = true) →
    Arranged n (.define n fields) m
  | reference {n number : Nat} : number < n → Arranged n (.reference number) n
  | function {n k m : Nat} {params : List Spec} {r : Spec} (variadic : Bool) :
    ArrangedAll n params k → (∀ p ∈ params, p.typeClass.isValue = true) → Arranged k r m →
    r.typeClass ≠ .function → Arranged n (.function params r variadic) m

inductive ArrangedAll : Nat → List Spec → Nat → Prop where
  | nil {n : Nat} : ArrangedAll n [] n
  | cons {n k m : Nat} {s : Spec} {rest : List Spec} :
    Arranged n s k → ArrangedAll k rest m → ArrangedAll n (s :: rest) m

end

mutual

theorem Spells.arranged {n m : Nat} {text : List Char} {s : Spec} (h : Spells n text s m) :
    Arranged n s m := by
  cases h with
  | scalar letter => exact .scalar _
  | pointer hElem => exact .pointer hElem.arranged
  | array hElem hValue _ hPos hCount =>
    refine .array hElem.arranged hValue (UInt64.lt_iff_toNat_lt.mpr ?_)
    rwa [UInt64.toNat_ofNat_of_lt' hCount]
  | vector hElem hLane _ hPos hCount =>
    refine .vector hElem.arranged hLane (UInt32.lt_iff_toNat_lt.mpr ?_)
    rwa [UInt32.toNat_ofNat_of_lt' hCount]
  | record hFields hNe hValue => exact .record hFields.arranged hNe hValue
  | define _ _ hFields hNe hValue => exact .define hFields.arranged hNe hValue
  | reference _ hLt => exact .reference hLt
  | nullary hRet hNot | nullaryVariadic hRet hNot =>
    exact .function _ .nil (by simp) hRet.arranged hNot
  | function hParams _ hValue hRet hNot | variadic hParams hValue hRet hNot =>
    exact .function _ hParams.arranged hValue hRet.arranged hNot

theorem SpellsAll.arranged {n m : Nat} {text : List Char} {specs : List Spec}
    (h : SpellsAll n text specs m) : ArrangedAll n specs m := by
  cases h with
  | nil => exact .nil
  | cons hHead hTail => exact .cons hHead.arranged hTail.arranged

end

end CompactType
