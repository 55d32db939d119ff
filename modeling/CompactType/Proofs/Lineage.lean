import CompactType.Proofs.Evolution
import CompactType.Proofs.Identity

/-!
# Where the types of a table come from

In a table that was only parsed into, every type obeys the rules for specifications. What a parse
asks for refers to what it got before, and the structs that it gets are new. So what can be reached
from a type that came with a parse came with the same parse, or was there and is the same.
-/

set_option autoImplicit false

namespace CompactType.TypeTable

open Parse (answers declarations)

/-- Unnamed types refer to smaller ids. -/
def Descending (t : TypeTable) : Prop :=
  ∀ a k, t.kind? a = some k → k.isNamed = false → ∀ b ∈ k.parts, b < a

variable {t t' : TypeTable} {config : Config} {calls : List (Call Nat)} {waiting : List Nat}
  {id : Nat}

section Rules

theorem parts_kind (r : Request Nat) : r.kind.parts = r.parts := by
  cases r <;> rfl

theorem Obeys.congr {k : Kind} (h : t.Obeys k)
    (hParts : ∀ b ∈ k.parts, t'.classOf b = t.classOf b) : t'.Obeys k := by
  cases k with
  | scalar | pointer => trivial
  | array e | vector e =>
    rw [Obeys, hParts e List.mem_cons_self]
    exact h
  | struct name fields =>
    cases fields with
    | none => exact h
    | some fields => exact ⟨h.1, fun f hf => (hParts f hf).symm ▸ h.2 f hf⟩
  | function params ret variadic =>
    refine ⟨fun p hp => ?_, ?_⟩
    · rw [hParts p (List.mem_append_left _ hp)]
      exact h.1 p hp
    · rw [hParts ret (List.mem_append_right _ (List.mem_singleton_self ret))]
      exact h.2

theorem Grows.obeys (h : Grows t t') {k : Kind} (hObeys : t.Obeys k)
    (hParts : ∀ b ∈ k.parts, b < t.size) : t'.Obeys k :=
  hObeys.congr fun b hb => h.classOf (hParts b hb)

theorem obeys_of_allowed {r : Request Nat} (hName : r.name? = none) (h : r.Allowed t.classOf) :
    t.Obeys r.kind := by
  cases r with
  | declare name => cases hName
  | _ => exact h

theorem Grows.isNamed_of (h : Grows t t') (hLt : id < t.size) (hNamed : t'.IsNamed id) :
    t.IsNamed id := by
  obtain ⟨k, hKind⟩ := exists_kind?_of_lt hLt
  obtain ⟨name, body, hNamed⟩ := hNamed
  obtain hSame | ⟨name', _, rfl, -⟩ := h id k hKind
  · exact ⟨name, body, hKind.trans (hSame.symm.trans hNamed)⟩
  · exact ⟨name', none, hKind⟩

theorem Coherent.kind?_make (h : t.Coherent) {r : Request Nat} (hName : r.name? = none) :
    (t.make r).2.kind? (t.make r).1 = some r.kind := by
  have hNot : r.kind.isNamed = false := by
    rw [isNamed_kind, hName]
    rfl
  rw [make_eq_intern hNot]
  exact h.kind?_intern hNot

end Rules

/-- What is known of the types that calls made, after which some structs wait for a body. -/
structure Lineage (t : TypeTable) (calls : List (Call Nat)) (waiting : List Nat)
    (t' : TypeTable) : Prop where
  /-- Types that do not wait obey the rules and refer to such as came back for the calls. -/
  closed : ∀ a ∈ answers calls, a ∉ waiting →
    ∃ k ∈ t'.kind? a, t'.Obeys k ∧ ∀ b ∈ k.parts, b ∈ answers calls
  mem_answers : ∀ a < t'.size, t.size ≤ a → a ∈ answers calls
  size_le : ∀ a ∈ answers calls, t'.IsNamed a → t.size ≤ a
  descending : t'.Descending

namespace Lineage

theorem nil (h : t.Descending) : Lineage t [] [] t where
  closed := nofun
  mem_answers _ hLt hLe := absurd hLt (Nat.not_lt.mpr hLe)
  size_le := nofun
  descending := h

theorem closed_mono (h : Lineage t calls waiting t') {t'' : TypeTable} {more : List (Call Nat)}
    {a : Nat} (hGrows : Grows t' t'') (hKept : ∀ k, t'.kind? a = some k → t''.kind? a = some k)
    (hLt : ∀ b ∈ answers calls, b < t'.size) (ha : a ∈ answers calls) (hDone : a ∉ waiting)
    (hPrefix : calls <+: more) :
    ∃ k ∈ t''.kind? a, t''.Obeys k ∧ ∀ b ∈ k.parts, b ∈ answers more := by
  obtain ⟨k, hKind, hObeys, hParts⟩ := h.closed a ha hDone
  exact ⟨k, hKept k hKind, hGrows.obeys hObeys fun b hb => hLt b (hParts b hb),
    fun b hb => Parse.answers_mono hPrefix (hParts b hb)⟩

theorem request (h : Lineage t calls waiting t') (hCoherent : t'.Coherent)
    (hLt : ∀ b ∈ answers calls, b < t'.size) {r : Request Nat} (hName : r.name? = none)
    (hParts : ∀ part ∈ r.parts, part ∈ answers calls) (hAllowed : r.Allowed t'.classOf) :
    Lineage t (calls ++ [.made r (t'.make r).1]) waiting (t'.make r).2 := by
  have hGrows := grows_make t' r
  have hKind := hCoherent.kind?_make hName
  have hPrefix : calls <+: calls ++ [.made r (t'.make r).1] := List.prefix_append _ _
  have hNot : r.kind.isNamed = false := by
    rw [isNamed_kind, hName]
    rfl
  constructor
  · intro a ha hDone
    rw [Parse.answers_made] at ha
    obtain ha | ha := List.mem_append.mp ha
    · exact h.closed_mono hGrows (fun k hk => kind?_make_of_kind? hk r) hLt ha hDone hPrefix
    · obtain rfl := List.mem_singleton.mp ha
      refine ⟨r.kind, hKind, ?_, ?_⟩
      · exact hGrows.obeys (obeys_of_allowed hName hAllowed) fun b hb =>
          hLt b (hParts b (parts_kind r ▸ hb))
      · exact fun b hb => Parse.answers_mono hPrefix (hParts b (parts_kind r ▸ hb))
  · intro a ha hLe
    by_cases hOld : a < t'.size
    · exact Parse.answers_mono hPrefix (h.mem_answers a hOld hLe)
    · obtain ⟨hSame, -⟩ | ⟨hNew, hSize, -⟩ := t'.make_cases r
      · rw [hSame] at ha
        exact absurd ha hOld
      · obtain rfl : a = (t'.make r).1 := by omega
        simp
  · intro a ha hNamed
    rw [Parse.answers_made] at ha
    obtain ha | ha := List.mem_append.mp ha
    · exact h.size_le a ha (hGrows.isNamed_of (hLt a ha) hNamed)
    · obtain rfl := List.mem_singleton.mp ha
      obtain ⟨name, body, hNamed⟩ := hNamed
      rw [Option.some.inj (hKind.symm.trans hNamed)] at hNot
      cases hNot
  · intro a k hk hUnnamed b hb
    by_cases hOld : a < t'.size
    · obtain ⟨k', hk'⟩ := exists_kind?_of_lt hOld
      obtain rfl := Option.some.inj (hk.symm.trans (kind?_make_of_kind? hk' r))
      exact h.descending a k hk' hUnnamed b hb
    · have hSize := lt_size_of_kind? hk
      obtain ⟨hSame, -⟩ | ⟨hNew, hSize', -⟩ := t'.make_cases r
      · rw [hSame] at hSize
        exact absurd hSize hOld
      · obtain rfl : a = (t'.make r).1 := by omega
        obtain rfl := Option.some.inj (hk.symm.trans hKind)
        have hLt' := hLt b (hParts b (parts_kind r ▸ hb))
        omega

theorem declare (h : Lineage t calls waiting t') (hLt : ∀ b ∈ answers calls, b < t'.size)
    (hSize : t.size ≤ t'.size) (name : String) :
    Lineage t (calls ++ [.made (.declare name) t'.size]) (t'.size :: waiting)
      (t'.declare name).2 := by
  have hGrows := grows_make t' (.declare name)
  have hPrefix : calls <+: calls ++ [.made (.declare name) t'.size] := List.prefix_append _ _
  constructor
  · intro a ha hDone
    obtain ⟨hNe, hDone⟩ := not_or.mp (mt List.mem_cons.mpr hDone)
    have ha : a ∈ answers calls := by simpa [hNe] using ha
    exact h.closed_mono hGrows (fun k hk => kind?_push_of_kind? hk) hLt ha hDone hPrefix
  · intro a ha hLe
    rw [TypeTable.declare, size_push] at ha
    rw [Parse.answers_made]
    obtain hOld | rfl := Nat.lt_succ_iff_lt_or_eq.mp ha
    · exact List.mem_append_left _ (h.mem_answers a hOld hLe)
    · exact List.mem_concat_self
  · intro a ha hNamed
    rw [Parse.answers_made] at ha
    obtain ha | ha := List.mem_append.mp ha
    · exact h.size_le a ha (hGrows.isNamed_of (hLt a ha) hNamed)
    · exact List.mem_singleton.mp ha ▸ hSize
  · intro a k hk hUnnamed b hb
    rw [TypeTable.declare, kind?_push] at hk
    split at hk
    · cases hk
      cases hUnnamed
    · exact h.descending a k hk hUnnamed b hb

theorem body (h : Lineage t calls (id :: waiting) t') (hLt : ∀ b ∈ answers calls, b < t'.size)
    {name : String} (hDeclared : t'.kind? id = some (.struct (some name) none))
    {fields : List Nat} (hFields : ∀ f ∈ fields, f ∈ answers calls) (hNe : fields ≠ [])
    (hValue : ∀ f ∈ fields, (t'.classOf f).isValue = true) :
    Lineage t (calls ++ [.body id fields]) waiting (t'.setBody id fields).2 := by
  have hGrows := grows_setBody t' id fields
  have hPrefix : calls <+: calls ++ [.body id fields] := List.prefix_append _ _
  have hKind (a : Nat) : (t'.setBody id fields).2.kind? a =
      if a = id then some (.struct (some name) (some fields)) else t'.kind? a := by
    rw [setBody_of_declared hDeclared, kind?_setKind]
    split
    · next hEq =>
      rw [hEq, hDeclared]
      rfl
    · rfl
  have hSize : (t'.setBody id fields).2.size = t'.size := by
    rw [setBody_of_declared hDeclared, size_setKind]
  constructor
  · intro a ha hDone
    rw [Parse.answers_body] at ha
    by_cases hEq : a = id
    · refine ⟨.struct (some name) (some fields), (hKind a).trans (if_pos hEq), ⟨hNe, ?_⟩, ?_⟩
      · exact fun f hf => hGrows.isValue (hValue f hf)
      · exact fun f hf => Parse.answers_mono hPrefix (hFields f hf)
    · have hDone' : a ∉ id :: waiting := mt (List.mem_of_ne_of_mem hEq) hDone
      exact h.closed_mono hGrows (fun k hk => (hKind a).trans ((if_neg hEq).trans hk)) hLt ha hDone'
        hPrefix
  · intro a ha hLe
    rw [Parse.answers_body]
    exact h.mem_answers a (hSize ▸ ha) hLe
  · intro a ha hNamed
    rw [Parse.answers_body] at ha
    exact h.size_le a ha (hGrows.isNamed_of (hLt a ha) hNamed)
  · intro a k hk hUnnamed b hb
    rw [hKind] at hk
    split at hk
    · cases hk
      cases hUnnamed
    · exact h.descending a k hk hUnnamed b hb

end Lineage

theorem exists_declared_of_waiting (h : Parse.Conforms factory config t calls waiting)
    (hMem : id ∈ waiting) :
    ∃ name, (factory.replay t calls).kind? id = some (.struct (some name) none) := by
  have hEffect := effect_replay h
  have hNew : id ∈ newStructs t (factory.replay t calls) := by
    rw [← hEffect.declared, ← h.nested.perm.mem_iff]
    exact List.mem_append_right _ hMem
  obtain ⟨n, hn⟩ := List.mem_iff_getElem?.mp hNew
  exact ⟨_, hEffect.incomplete n id hn hMem⟩

theorem lineage_replay (hCoherent : t.Coherent) (hDescending : t.Descending)
    (h : Parse.Conforms factory config t calls waiting) :
    Lineage t calls waiting (factory.replay t calls) := by
  induction h with
  | nil => exact .nil hDescending
  | @request calls _ _ r _ hConforms hName hParts hAsks ih =>
    obtain ⟨hAllowed, rfl, rfl⟩ := hAsks
    rw [Factory.replay_concat]
    exact ih.request (hCoherent.replay calls) (fun b => hConforms.answer_lt_size hCoherent) hName
      hParts hAllowed
  | @declare calls _ _ _ hConforms hAsks ih =>
    obtain ⟨-, rfl, rfl⟩ := hAsks
    rw [Factory.replay_concat]
    exact ih.declare (fun b => hConforms.answer_lt_size hCoherent) (grows_replay t calls).size_le _
  | @body calls _ _ fields id hConforms hParts hFills ih =>
    obtain ⟨name, hDeclared⟩ := exists_declared_of_waiting hConforms List.mem_cons_self
    rw [hFills.calls_eq, Factory.replay_concat]
    exact ih.body (fun b => hConforms.answer_lt_size hCoherent) hDeclared hParts hFills.ne_nil
      hFills.isValue

end CompactType.TypeTable
