import CompactType.Proofs.Evolution
import CompactType.Proofs.Exploration
import CompactType.Proofs.Identity

/-!
# Tables built from known ids

If operations are only given ids of types that are there, all kinds of the table mention such ids,
and the unnamed ones mention ids smaller than their own. So printing goes down through the ids. The
walk that describes a type goes down through the ids as well, until it enters a named struct, which
then has a number. Both come to an end, and neither looks for a type that is missing.
-/

set_option autoImplicit false

namespace CompactType.TypeTable

open Parse (answers)

/-- The ids that an operation is given are in the table. -/
def Operation.Known (t : TypeTable) : Operation → Prop
  | intern kind => ∀ b ∈ kind.parts, b < t.size
  | make request => ∀ b ∈ request.parts, b < t.size
  | complete id fields => ∀ b ∈ id :: fields, b < t.size
  | parse .. => True

/-- Each operation is only given ids that are in the table by then. -/
def KnownAlong (t : TypeTable) : List Operation → Prop
  | [] => True
  | operation :: rest => operation.Known t ∧ KnownAlong (operation.apply t) rest

instance (t : TypeTable) : DecidablePred (Operation.Known t)
  | .intern _ | .make _ | .complete .. => List.decidableBAll _ _
  | .parse .. => .isTrue trivial

instance KnownAlong.decidable (t : TypeTable) : (operations : List Operation) →
    Decidable (t.KnownAlong operations)
  | [] => .isTrue trivial
  | operation :: rest =>
    have := decidable (operation.apply t) rest
    inferInstanceAs (Decidable (operation.Known t ∧ KnownAlong (operation.apply t) rest))

/-- The named structs of the table that have no number. -/
def unnumbered (t : TypeTable) (seen : Seen) : Finset Nat :=
  (Finset.range t.size).filter fun a => (t.kind? a).any Kind.isNamed ∧ a ∉ seen

/-- How many layers a walk can have below a type: entering a struct leaves fewer of them without a
number, and in between the ids get smaller. -/
def room (t : TypeTable) (seen : Seen) (id : Nat) : Nat :=
  (t.unnumbered seen).card * t.size + id

/-- How a walk ends: something is written, and the numbers given before are kept, or a struct that
is met has no body. -/
inductive Settles {α : Type} (t : TypeTable) (seen : Seen) : Except Refusal (α × Seen) → Prop where
  | ok {a : α} {after : Seen} : seen <+: after → Settles t seen (.ok (a, after))
  | error {u : Nat} {label : String} :
    t.IsIncomplete u → t.text u = .ok label → Settles t seen (.error (.incomplete label))

/-- Two walks end, and in the same way. -/
def EndAlike {α : Type} (t : TypeTable) (seen : Seen) (result result' : Except Refusal (α × Seen)) :
    Prop :=
  result' = result ∧ Settles t seen result

/-- Printing and describing a type come to an end, however many layers are allowed beyond those that
are needed, and whatever structs have a number already. -/
structure WalksEnd (t : TypeTable) (id : Nat) : Prop where
  text : ∃ label, t.text id = .ok label ∧
    ∀ layers, id < layers → t.textWithin layers id = .ok label
  describe : ∀ seen, ∃ result, Settles t seen result ∧
    ∀ layers, t.room seen id < layers → t.describeWithin layers id seen = result
  encode : (∃ w, t.encode id = .ok w) ∨ ∃ u label, t.IsIncomplete u ∧ t.text u = .ok label ∧
    t.encode id = .error (.incomplete label)

variable {t : TypeTable} {id : Nat} {seen : Seen} {k : Kind}

namespace Grounded

theorem push (h : t.Grounded) (hParts : ∀ b ∈ k.parts, b < t.size) :
    (t.push k).2.Grounded := by
  intro a ha k' hKind b hb
  rw [size_push] at ha ⊢
  rw [kind?_push] at hKind
  split at hKind
  · next hNew =>
    obtain rfl := Option.some.inj hKind
    have hLt := hParts b hb
    exact ⟨hLt.trans (Nat.lt_succ_self _), fun _ => hNew ▸ hLt⟩
  · next hOld =>
    obtain ⟨hLt, hSmaller⟩ := h a (by omega) k' hKind b hb
    exact ⟨hLt.trans (Nat.lt_succ_self _), hSmaller⟩

theorem intern (h : t.Grounded) (hParts : ∀ b ∈ k.parts, b < t.size) :
    (t.intern k).2.Grounded := by
  cases hLookup : t.interned.lookup k with
  | some id =>
    rw [intern_of_lookup hLookup]
    exact h
  | none =>
    rw [intern_of_lookup_none hLookup]
    exact h.push hParts

theorem make (h : t.Grounded) {r : Request Nat} (hParts : ∀ b ∈ r.parts, b < t.size) :
    (t.make r).2.Grounded := by
  cases r with
  | declare name => exact h.push hParts
  | _ => exact h.intern hParts

theorem setBody (h : t.Grounded) (id : Nat) {fields : List Nat}
    (hFields : ∀ b ∈ fields, b < t.size) : (t.setBody id fields).2.Grounded := by
  obtain hSame | ⟨name, -, hSet⟩ := t.setBody_cases id fields
  · exact hSame.symm ▸ h
  · rw [hSet]
    intro a ha k hKind b hb
    rw [size_setKind] at ha ⊢
    rw [kind?_setKind] at hKind
    split at hKind
    · obtain ⟨_, -, rfl⟩ := Option.map_eq_some_iff.mp hKind
      exact ⟨hFields b hb, fun hNot => by cases hNot⟩
    · exact h a ha k hKind b hb

theorem replay (h : t.Grounded) (hCoherent : t.Coherent) {config : Config}
    {calls : List (Call Nat)} {waiting : List Nat}
    (hConforms : Parse.Conforms factory config t calls waiting) :
    (factory.replay t calls).Grounded := by
  induction hConforms with
  | nil => exact h
  | request hConforms _ hParts hAsks ih =>
    rw [hAsks.calls_eq, Factory.replay_concat]
    exact ih.make fun b hb => hConforms.answer_lt_size hCoherent (hParts b hb)
  | declare _ hAsks ih =>
    rw [hAsks.calls_eq, Factory.replay_concat]
    exact ih.make (List.forall_mem_nil _)
  | body hConforms hParts hFills ih =>
    rw [hFills.calls_eq, Factory.replay_concat]
    exact ih.setBody _ fun b hb => hConforms.answer_lt_size hCoherent (hParts b hb)

theorem apply (h : t.Grounded) (hCoherent : t.Coherent) {operation : Operation}
    (hKnown : operation.Known t) : (operation.apply t).Grounded := by
  cases operation with
  | intern kind => exact h.intern hKnown
  | make request => exact h.make hKnown
  | complete id fields => exact h.setBody id (List.forall_mem_cons.mp hKnown).2
  | parse spec config =>
    obtain ⟨calls, waiting, -, hStore, hConforms, -⟩ :=
      Parse.exists_conforms factory config spec t
    rw [Operation.apply, parse, hStore]
    exact h.replay hCoherent hConforms

theorem afterKnown (h : t.Grounded) (hCoherent : t.Coherent) {operations : List Operation}
    (hKnown : t.KnownAlong operations) : (t.after operations).Grounded := by
  induction operations generalizing t with
  | nil => exact h
  | cons operation rest ih =>
    exact ih (h.apply hCoherent hKnown.1) (hCoherent.apply operation) hKnown.2

theorem initial : initial.Grounded := by
  unfold Grounded
  decide +kernel

section Text

theorem exists_textWithin (h : t.Grounded) {layers : Nat} (hLt : id < t.size)
    (hLayers : id < layers) : ∃ label, t.textWithin layers id = .ok label := by
  induction layers generalizing id with
  | zero => omega
  | succ layers ih =>
    obtain ⟨k, hKind⟩ := exists_kind?_of_lt hLt
    rw [textWithin_succ hKind]
    refine exists_textOf fun hNot b hb => ?_
    obtain ⟨hPart, hSmaller⟩ := h id hLt k hKind b hb
    have hBelow := hSmaller hNot
    exact ih hPart (by omega)

theorem exists_text (h : t.Grounded) (hLt : id < t.size) :
    ∃ label, t.text id = .ok label ∧
      ∀ layers, id < layers → t.textWithin layers id = .ok label := by
  obtain ⟨label, hText⟩ := h.exists_textWithin hLt (Nat.lt_succ_self id)
  have hMore (layers : Nat) (hLayers : id < layers) : t.textWithin layers id = .ok label :=
    (Grows.refl t).textWithin hLayers hText
  exact ⟨label, hMore _ (by omega), hMore⟩

end Text

end Grounded

section Room

variable {after : Seen}

theorem any_isNamed_iff : (t.kind? id).any Kind.isNamed = true ↔ t.IsNamed id := by
  constructor
  · intro h
    obtain ⟨k, hKind, hNamed⟩ := (Option.any_eq_true _ _).mp h
    cases k with
    | struct name body =>
      obtain ⟨name, rfl⟩ := Option.isSome_iff_exists.mp hNamed
      exact ⟨name, body, hKind⟩
    | _ => cases hNamed
  · rintro ⟨name, body, hKind⟩
    rw [hKind]
    rfl

theorem mem_unnumbered {a : Nat} : a ∈ t.unnumbered seen ↔ t.IsNamed a ∧ a ∉ seen := by
  rw [unnumbered, Finset.mem_filter, Finset.mem_range, any_isNamed_iff]
  constructor
  · exact And.right
  · rintro ⟨⟨name, body, hKind⟩, hNew⟩
    exact ⟨lt_size_of_kind? hKind, ⟨name, body, hKind⟩, hNew⟩

theorem card_unnumbered_le (t : TypeTable) (seen : Seen) : (t.unnumbered seen).card ≤ t.size := by
  simpa [unnumbered] using Finset.card_filter_le (Finset.range t.size) _

theorem unnumbered_anti (hPrefix : seen <+: after) : t.unnumbered after ⊆ t.unnumbered seen := by
  intro a ha
  obtain ⟨hNamed, hNew⟩ := mem_unnumbered.mp ha
  exact mem_unnumbered.mpr ⟨hNamed, mt (fun hOld => hPrefix.subset hOld) hNew⟩

theorem room_lt_of_lt (hPrefix : seen <+: after) {b : Nat} (hLt : b < id) :
    t.room after b < t.room seen id := by
  have hCard := Finset.card_le_card (unnumbered_anti (t := t) hPrefix)
  have hRows := Nat.mul_le_mul_right t.size hCard
  unfold room
  omega

theorem room_lt_of_entered (hNamed : t.IsNamed id) (hNew : id ∉ seen)
    (hPrefix : seen ++ [id] <+: after) {b : Nat} (hLt : b < t.size) :
    t.room after b < t.room seen id := by
  have hSubset : t.unnumbered after ⊂ t.unnumbered seen := by
    refine (Finset.ssubset_iff_of_subset ?_).mpr ⟨id, mem_unnumbered.mpr ⟨hNamed, hNew⟩, ?_⟩
    · exact unnumbered_anti ((List.prefix_append seen [id]).trans hPrefix)
    · exact fun hMem => (mem_unnumbered.mp hMem).2 (hPrefix.subset (by simp))
  have hRows := Nat.mul_le_mul_right t.size (Nat.succ_le_of_lt (Finset.card_lt_card hSubset))
  rw [Nat.succ_mul] at hRows
  unfold room
  omega

theorem room_lt_layers (t : TypeTable) (hLt : id < t.size) :
    t.room [] id < (t.size + 1) * (t.size + 1) := by
  have hRows := Nat.mul_le_mul_right t.size (t.card_unnumbered_le [])
  rw [Nat.succ_mul, Nat.mul_succ]
  unfold room
  omega

end Room

section Walks

variable {α β : Type} {after : Seen} {one one' : Nat → Seen → Except Refusal (Spec × Seen)}

theorem Settles.endAlike {result : Except Refusal (α × Seen)} (h : Settles t seen result) :
    EndAlike t seen result result := ⟨rfl, h⟩

theorem EndAlike.of_isPrefix {result result' : Except Refusal (α × Seen)} {before : Seen}
    (h : EndAlike t seen result result') (hPrefix : before <+: seen) :
    EndAlike t before result result' := by
  obtain ⟨hEq, hSettles⟩ := h
  refine ⟨hEq, ?_⟩
  cases hSettles with
  | ok hMore => exact .ok (hPrefix.trans hMore)
  | error hIncomplete hText => exact .error hIncomplete hText

theorem EndAlike.bind {result result' : Except Refusal (α × Seen)}
    {next next' : α × Seen → Except Refusal (β × Seen)} (h : EndAlike t seen result result')
    (hNext : ∀ a after, seen <+: after → EndAlike t after (next (a, after)) (next' (a, after))) :
    EndAlike t seen (result >>= next) (result' >>= next') := by
  obtain ⟨rfl, hSettles⟩ := h
  cases hSettles with
  | error hIncomplete hText => exact (Settles.error hIncomplete hText).endAlike
  | ok hPrefix => exact (hNext _ _ hPrefix).of_isPrefix hPrefix

theorem EndAlike.map {result result' : Except Refusal (α × Seen)}
    (h : EndAlike t seen result result') (g : α → β) :
    EndAlike t seen (result >>= fun x => .ok (g x.1, x.2))
      (result' >>= fun x => .ok (g x.1, x.2)) :=
  h.bind fun _ after _ => (Settles.ok (List.prefix_refl after)).endAlike

theorem endAlike_describeAll {elems : List Nat}
    (hOne : ∀ e ∈ elems, ∀ after, seen <+: after → EndAlike t after (one e after) (one' e after)) :
    EndAlike t seen (describeAll one elems seen) (describeAll one' elems seen) := by
  induction elems generalizing seen with
  | nil => exact (Settles.ok (List.prefix_refl seen)).endAlike
  | cons e elems ih =>
    refine (hOne e List.mem_cons_self seen (List.prefix_refl seen)).bind fun s between hPrefix => ?_
    refine (ih fun e' he' after hAfter => ?_).map (List.cons s)
    exact hOne e' (List.mem_cons_of_mem e he') after (hPrefix.trans hAfter)

/-- A layer ends if the walks below it do. Below a struct that is entered they only need to end with
the struct numbered. -/
theorem endAlike_describeLayer
    (hKind : t.kind? id = some k)
    (hOne : ∀ e ∈ k.parts, ∀ after, seen <+: after →
      (k.isNamed = true → id ∉ seen ∧ seen ++ [id] <+: after) →
      EndAlike t after (one e after) (one' e after)) :
    EndAlike t seen (t.describeLayer one id k seen) (t.describeLayer one' id k seen) := by
  have hPart (hNot : k.isNamed = false) (e : Nat) (he : e ∈ k.parts) (after : Seen)
      (hPrefix : seen <+: after) : EndAlike t after (one e after) (one' e after) :=
    hOne e he after hPrefix fun hNamed => absurd hNamed (by simp [hNot])
  cases k with
  | scalar k => exact (Settles.ok (List.prefix_refl seen)).endAlike
  | pointer e =>
    exact (hPart rfl e List.mem_cons_self seen (List.prefix_refl seen)).map Spec.pointer
  | array e n =>
    exact (hPart rfl e List.mem_cons_self seen (List.prefix_refl seen)).map (Spec.array · n)
  | vector e n =>
    exact (hPart rfl e List.mem_cons_self seen (List.prefix_refl seen)).map (Spec.vector · n)
  | function params ret variadic =>
    refine (endAlike_describeAll fun e he after hPrefix =>
      hPart rfl e (List.mem_append_left _ he) after hPrefix).bind fun specs between hPrefix => ?_
    exact (hPart rfl ret (List.mem_append_right _ (List.mem_singleton_self ret)) between
      hPrefix).map (Spec.function specs · variadic)
  | struct name fields =>
    cases hSeen : seen.idxOf? id with
    | some number =>
      simp only [describeLayer_reference hSeen]
      exact (Settles.ok (List.prefix_refl seen)).endAlike
    | none =>
      have hNew : id ∉ seen := List.idxOf?_eq_none_iff.mp hSeen
      cases fields with
      | none =>
        obtain ⟨label, hText⟩ := exists_text_of_incomplete hKind
        simp only [describeLayer, hSeen, hText]
        exact (Settles.error ⟨name, hKind⟩ hText).endAlike
      | some fields =>
        cases name with
        | none =>
          simp only [describeLayer, hSeen]
          exact (endAlike_describeAll (hPart rfl)).map Spec.record
        | some label =>
          have hFields : EndAlike t (seen ++ [id]) (describeAll one fields (seen ++ [id]))
              (describeAll one' fields (seen ++ [id])) :=
            endAlike_describeAll fun e he after hPrefix =>
              hOne e he after ((List.prefix_append seen [id]).trans hPrefix) fun _ => ⟨hNew, hPrefix⟩
          have hDefine := hFields.map (Spec.define seen.length)
          have hPrefix : seen <+: seen ++ [id] := List.prefix_append seen [id]
          simp only [describeLayer, hSeen, Option.isSome_some, if_true]
          exact hDefine.of_isPrefix hPrefix

/-- Parts of unnamed types have smaller ids. A struct that is entered has a number from then on. -/
theorem Grounded.endAlike (h : t.Grounded) {layers layers' : Nat} (hLt : id < t.size)
    (hLayers : t.room seen id < layers) (hLayers' : t.room seen id < layers') :
    EndAlike t seen (t.describeWithin layers id seen) (t.describeWithin layers' id seen) := by
  induction layers generalizing id seen layers' with
  | zero => omega
  | succ layers ih =>
    obtain ⟨layers', rfl⟩ := Nat.exists_eq_succ_of_ne_zero (n := layers') (by omega)
    obtain ⟨k, hKind⟩ := exists_kind?_of_lt hLt
    rw [describeWithin_succ hKind, describeWithin_succ hKind]
    refine endAlike_describeLayer hKind fun e he after hPrefix hEntered => ?_
    obtain ⟨hPart, hSmaller⟩ := h id hLt k hKind e he
    have hRoom : t.room after e < t.room seen id := by
      cases hNamed : k.isNamed with
      | false => exact room_lt_of_lt hPrefix (hSmaller hNamed)
      | true =>
        obtain ⟨hNew, hPrefix⟩ := hEntered hNamed
        exact room_lt_of_entered (any_isNamed_iff.mp (by simp [hKind, hNamed])) hNew hPrefix hPart
    exact ih hPart (by omega) (by omega)

end Walks

theorem Grounded.walksEnd (h : t.Grounded) (hLt : id < t.size) : WalksEnd t id where
  text := h.exists_text hLt
  describe seen := by
    refine ⟨t.describeWithin (t.room seen id + 1) id seen,
      (h.endAlike hLt (Nat.lt_succ_self _) (Nat.lt_succ_self _)).2, fun layers hLayers => ?_⟩
    exact (h.endAlike hLt (Nat.lt_succ_self _) hLayers).1
  encode := by
    have hLayers := t.room_lt_layers hLt
    obtain ⟨-, hSettles⟩ := h.endAlike hLt hLayers hLayers
    generalize hResult : t.describeWithin ((t.size + 1) * (t.size + 1)) id [] = result at hSettles
    cases hSettles with
    | @ok s after =>
      refine .inl ⟨s.text, ?_⟩
      simp only [encode, describe, hResult]
      rfl
    | @error u label hIncomplete hText =>
      refine .inr ⟨u, label, hIncomplete, hText, ?_⟩
      simp only [encode, describe, hResult]
      rfl

/-- Whatever operations lead to a table, if they are only given ids that are there: unnamed types
mention smaller ids, no kind mentions an id that is missing, and printing and describing a type come
to an end. -/
theorem walksEnd_after (operations : List Operation) (hKnown : initial.KnownAlong operations) :
    (initial.after operations).Grounded ∧
      ∀ id < (initial.after operations).size, WalksEnd (initial.after operations) id := by
  have h := Grounded.initial.afterKnown coherent_initial hKnown
  exact ⟨h, fun _ => h.walksEnd⟩

theorem walksEnd_after_cycles :
    let operations : List Operation := [.make (.declare "node"), .make (.pointer 9),
      .make (.declare "edge"), .complete 9 [10, 11, 9], .complete 11 [10, 9],
      .parse "=0\x7bi=1\x7b*%0%1" {}, .complete 9 [],
      .intern (.struct (some "open") none), .intern (.function [10, 12] 9 true)]
    initial.KnownAlong operations ∧ (initial.after operations).Grounded ∧
      ∀ id < (initial.after operations).size, WalksEnd (initial.after operations) id := by
  intro operations
  have hKnown : initial.KnownAlong operations := by decide +kernel
  exact ⟨hKnown, walksEnd_after operations hKnown⟩

end CompactType.TypeTable
