import CompactType.Factory.Recorder
import CompactType.Proofs.Comparison

/-!
# Limits of nesting and names of structs

A configuration has no other influence on a parse than to cut it off where types nest too deep, and
to name the structs. A limit above the length of the text is never reached.
-/

set_option autoImplicit false

namespace CompactType

variable {σ H : Type}

/-- The answers of the factory do not depend on the names of structs. -/
def NameBlind (F : Factory σ H) (store : σ) : Prop :=
  AnswerAlike (fun _ _ => True) F store F store

namespace Recorder

theorem replay_eq_of_renamed (plan : Plan) {named : String → String → Prop} (r : Recorder)
    {calls calls' : List (Call Nat)} (h : CallsRenamed named calls calls') :
    (factory plan).replay r calls = (factory plan).replay r calls' := by
  induction h generalizing r with
  | nil => rfl
  | @cons call call' _ _ hCall _ ih =>
    have hApply : call.apply (factory plan) r = call'.apply (factory plan) r := by
      obtain ⟨handle, hSame | hNamed⟩ | ⟨handle, fields⟩ := hCall
      · rfl
      · rfl
      · rfl
    change (factory plan).replay (call.apply (factory plan) r) _ = _
    rw [hApply]
    exact ih _

theorem nameBlind (plan : Plan) (r : Recorder) : NameBlind (factory plan) r where
  make_eq calls calls' p p' hCalls _ := by
    rw [replay_eq_of_renamed plan r hCalls]
    rfl
  setBody_eq calls calls' handle fields hCalls := by rw [replay_eq_of_renamed plan r hCalls]
  classOf_eq calls calls' handle hCalls := by rw [replay_eq_of_renamed plan r hCalls]

end Recorder

namespace Parse

theorem not_tooDeep_of_length_lt {F : Factory σ H} {config : Config} {spec : String} {store : σ}
    (h : spec.utf8ByteSize < config.maxDepth) : ¬TooDeep (run F config spec store).outcome := by
  rintro ⟨d, pos, spec', hOutcome⟩
  have hBounded := bounded_of_error hOutcome
  have hDeep : config.maxDepth ≤ pos := (hBounded.too_deep d rfl).2
  have hLength := length_le_utf8ByteSize spec.toList
  rw [String.ofList_toList] at hLength
  have hPos : pos ≤ spec.toList.length := hBounded.pos_le
  omega

/-- With a higher limit and other names the same calls are made and the outcome is the same. A
parse that is too deep for the lower limit is only cut off there. -/
theorem runs_under_limits {F : Factory σ H} {store : σ} (hBlind : NameBlind F store)
    {config config' : Config} (hDepth : config.maxDepth ≤ config'.maxDepth) (spec : String) :
    (¬TooDeep (run F config spec store).outcome →
      CallsRenamed (Named config config') (Journal.calls (run F config spec store).journal)
          (Journal.calls (run F config' spec store).journal) ∧
        (run F config' spec store).outcome = (run F config spec store).outcome) ∧
    (TooDeep (run F config spec store).outcome →
      ∃ calls, CallsRenamed (Named config config')
          (Journal.calls (run F config spec store).journal) calls ∧
        calls <+: Journal.calls (run F config' spec store).journal) ∧
    (∀ d pos spec', (run F config spec store).outcome =
      .error ⟨⟨.nestingTooDeep d, pos⟩, spec'⟩ → d = config.maxDepth) ∧
    (spec.utf8ByteSize < config.maxDepth →
      ¬TooDeep (run F config spec store).outcome ∧
        (run F config' spec store).outcome = (run F config spec store).outcome) := by
  have hAlike : AnswerAlike (Named config config') F store F store :=
    hBlind.mono fun _ _ _ => trivial
  have hRuns := same_or_cut hAlike hDepth spec
  have hSame (hShallow : ¬TooDeep (run F config spec store).outcome) :
      CallsRenamed (Named config config') (Journal.calls (run F config spec store).journal)
          (Journal.calls (run F config' spec store).journal) ∧
        (run F config' spec store).outcome = (run F config spec store).outcome :=
    hRuns.resolve_right fun hCut => hShallow hCut.2.1
  refine ⟨hSame, ?_, ?_, ?_⟩
  · intro _
    obtain ⟨hCalls, -⟩ | ⟨-, -, hCut⟩ := hRuns
    · exact ⟨_, hCalls, List.prefix_rfl⟩
    · exact hCut
  · intro d pos spec' hOutcome
    exact ((bounded_of_error hOutcome).too_deep d rfl).1
  · intro hLength
    have hShallow : ¬TooDeep (run F config spec store).outcome := not_tooDeep_of_length_lt hLength
    exact ⟨hShallow, (hSame hShallow).2⟩

/-- Three levels are too few for a pointer to a pointer in a struct. The calls made before it are
made with five levels too. -/
theorem runs_under_limits_pointers :
    NameBlind (Recorder.factory {}) Recorder.empty ∧
    TooDeep (run (Recorder.factory {}) ⟨3, "a"⟩ "=0\x7bi*%0**i\x7d" Recorder.empty).outcome ∧
    ∃ calls, CallsRenamed (Named ⟨3, "a"⟩ ⟨5, "b"⟩)
        (Journal.calls
          (run (Recorder.factory {}) ⟨3, "a"⟩ "=0\x7bi*%0**i\x7d" Recorder.empty).journal) calls ∧
      calls <+: Journal.calls
        (run (Recorder.factory {}) ⟨5, "b"⟩ "=0\x7bi*%0**i\x7d" Recorder.empty).journal := by
  have hBlind : NameBlind (Recorder.factory {}) Recorder.empty := Recorder.nameBlind {} _
  have hDeep : TooDeep
      (run (Recorder.factory {}) ⟨3, "a"⟩ "=0\x7bi*%0**i\x7d" Recorder.empty).outcome :=
    ⟨3, 9, "=0\x7bi*%0**i\x7d", by decide +kernel⟩
  have hDepth : (Config.mk 3 "a").maxDepth ≤ (Config.mk 5 "b").maxDepth := by decide
  have hLimits := runs_under_limits hBlind hDepth "=0\x7bi*%0**i\x7d"
  exact ⟨hBlind, hDeep, hLimits.2.1 hDeep⟩

end Parse

end CompactType
