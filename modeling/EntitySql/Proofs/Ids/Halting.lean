import EntitySql.Proofs.Ids.Minted

/-! Halting. A generator halts at a reading below the last one that it took up, and for no other reason; from then on
every call fails as it stands, and no clock brings the generator back. Once an id is minted the last reading is not
before the epoch, so no later call finds the clock there. -/
namespace EntitySql.Ids
open Generator

def IdError.isRegression : IdError → Bool
  | clockMovedBackwards _ _ => true
  | _ => false

/-- The call has found that the clock has moved backwards. -/
def Step.Regresses (step : Step) : Prop :=
  ∃ e, step.outcome = .error e ∧ e.isRegression = true

/-- What a call does that finds the clock moved backwards: it halts the generator and leaves all else as it was. -/
def Generator.haltedBy (g : Generator) (clock : Clock) (position : Nat) : Step :=
  ⟨.error (.clockMovedBackwards g.last (clock position)), { g with halted := true }, position + 1⟩

/-- What a call does of a halted generator: nothing. -/
def Generator.refusal (g : Generator) (position : Nat) : Step :=
  ⟨.error (.halted g.last), g, position⟩

section
variable {clock : Clock} {g : Generator} {patience position count sequence : Nat} {now : Int} {step : Step}

theorem next_of_regression (hrunning : g.halted = false) (hnow : clock position < g.last) :
    g.next patience clock position = some (g.haltedBy clock position) := by
  rw [next, if_neg (by simp [hrunning]), if_pos hnow, haltedBy]

theorem next_of_halted (h : g.halted = true) : g.next patience clock position = some (g.refusal position) := by
  rw [next, if_pos h, refusal]

/-- A halted generator refuses every call, whatever the clock shows. -/
theorem calls_of_halted (h : g.halted = true) :
    g.calls patience clock count position = List.replicate count ⟨g, position, g.refusal position⟩ := by
  induction count with
  | zero => rfl
  | succ count ih =>
    rw [calls, next_of_halted h, List.replicate_succ]
    exact congrArg _ ih

theorem not_regresses_emit : ¬(g.emit now sequence position).Regresses := by
  rintro ⟨e, herr, hregression⟩
  by_cases hfits : fits now g.epoch = true
  · rw [emit_of_fits hfits] at herr
    cases herr
  · rw [emit_of_not_fits hfits] at herr
    cases herr
    cases hregression

theorem Generator.Called.eq_haltedBy (h : Called clock g position step) (hregresses : step.Regresses) :
    g.halted = false ∧ clock position < g.last ∧ step = g.haltedBy clock position := by
  have hother : ∀ {e : IdError}, step.outcome = .error e → e.isRegression = true := by
    intro e herr
    obtain ⟨e', herr', hregression⟩ := hregresses
    rw [herr] at herr'
    cases herr'
    exact hregression
  cases h with
  | halted => cases hother rfl
  | backwards hrunning hnow => exact ⟨hrunning, hnow, rfl⟩
  | early => cases hother rfl
  | later => exact absurd hregresses not_regresses_emit
  | again => exact absurd hregresses not_regresses_emit
  | waited => exact absurd hregresses not_regresses_emit

theorem Generator.Called.halted_iff (h : Called clock g position step) (hrunning : g.halted = false) :
    step.generator.halted = true ↔ step.Regresses := by
  have hemit : ∀ {now : Int} {sequence later : Nat}, (g.emit now sequence later).generator.halted = true ↔
      (g.emit now sequence later).Regresses := by
    intro now sequence later
    rw [emit_keeps.2.2, hrunning]
    exact iff_of_false (by decide) not_regresses_emit
  cases h with
  | halted hhalted =>
    rw [hrunning] at hhalted
    cases hhalted
  | backwards => exact iff_of_true rfl ⟨_, rfl, rfl⟩
  | early =>
    refine iff_of_false (by simp [hrunning]) ?_
    rintro ⟨e, herr, hregression⟩
    cases herr
    cases hregression
  | later => exact hemit
  | again => exact hemit
  | waited => exact hemit

/-- A generator whose last reading is not before the epoch stays so, and its calls do not find the clock there. -/
theorem past_emit (hpast : g.epoch ≤ g.last) :
    (g.emit now sequence position).generator.epoch ≤ (g.emit now sequence position).generator.last := by
  by_cases hfits : fits now g.epoch = true
  · rw [emit_of_fits hfits]
    exact (fits_iff.1 hfits).1
  · rw [emit_of_not_fits hfits]
    exact hpast

theorem Generator.Called.past (h : Called clock g position step) (hpast : g.epoch ≤ g.last) :
    step.generator.epoch ≤ step.generator.last := by
  cases h with
  | halted => exact hpast
  | backwards => exact hpast
  | early => exact hpast
  | later => exact past_emit hpast
  | again => exact past_emit hpast
  | waited => exact past_emit hpast

theorem Generator.Called.ne_early (h : Called clock g position step) (hpast : g.epoch ≤ g.last) (now epoch : Int) :
    step.outcome ≠ .error (.clockBeforeEpoch now epoch) := by
  have hemit : ∀ {time : Int} {sequence later : Nat},
      (g.emit time sequence later).outcome ≠ .error (.clockBeforeEpoch now epoch) := by
    intro time sequence later
    by_cases hfits : fits time g.epoch = true
    · rw [emit_of_fits hfits]
      simp
    · rw [emit_of_not_fits hfits]
      simp
  cases h with
  | halted => simp
  | backwards => simp
  | early _ hlast hepoch => omega
  | later => exact hemit
  | again => exact hemit
  | waited => exact hemit

theorem regresses_iff_of_next (hrunning : g.halted = false) (hnext : g.next patience clock position = some step) :
    step.Regresses ↔ clock position < g.last := by
  constructor
  · intro hregresses
    exact ((called_of_next hnext).eq_haltedBy hregresses).2.1
  · intro hnow
    rw [next_of_regression hrunning hnow] at hnext
    obtain rfl := Option.some.inj hnext
    exact ⟨_, rfl, rfl⟩

/-- A call that finds the clock before the epoch, or too late, halts no generator. -/
theorem Generator.Called.not_halted (h : Called clock g position step) (hrunning : g.halted = false) {now epoch : Int}
    (hother : step.outcome = .error (.clockBeforeEpoch now epoch) ∨
      step.outcome = .error (.timestampOverflow now epoch)) : step.generator.halted = false := by
  rw [← Bool.not_eq_true, h.halted_iff hrunning]
  rintro ⟨e, herr, hregression⟩
  obtain hother | hother := hother
  · rw [hother] at herr
    cases herr
    cases hregression
  · rw [hother] at herr
    cases herr
    cases hregression

section
variable {before after : List Call} {call : Call}
  (h : g.calls patience clock count position = before ++ call :: after)
include h

/-- After the call that finds the clock moved backwards all others are refused. -/
theorem refused_of_split (hregresses : call.step.Regresses) :
    call.step = call.before.haltedBy clock call.position ∧ before.length + 1 + after.length = count ∧
      ∀ later ∈ after, later = ⟨call.step.generator, call.step.position,
        call.step.generator.refusal call.step.position⟩ := by
  obtain ⟨hnext, left, hleft, hafter⟩ := calls_split h
  obtain ⟨-, -, hstep⟩ := (called_of_next hnext).eq_haltedBy hregresses
  have hhalted : call.step.generator.halted = true := by
    rw [hstep, haltedBy]
  rw [calls_of_halted hhalted] at hafter
  refine ⟨hstep, ?_, ?_⟩
  · rw [hafter, List.length_replicate, hleft]
  · intro later hlater
    rw [hafter] at hlater
    exact List.eq_of_mem_replicate hlater

/-- After an id no call finds the clock before the epoch. -/
theorem ne_early_of_split (hminted : call.id?.isSome) {later : Call} (hlater : later ∈ after) (now epoch : Int) :
    later.step.outcome ≠ .error (.clockBeforeEpoch now epoch) := by
  obtain ⟨hnext, left, -, hafter⟩ := calls_split h
  have hcalled := called_of_next hnext
  obtain ⟨id, hid⟩ := Option.isSome_iff_exists.1 hminted
  have hpast : call.step.generator.epoch ≤ call.step.generator.last := by
    rw [hcalled.keeps.1]
    exact (fits_iff.1 (hcalled.id_eq (ok_of_id? hid)).1.timestamp).1
  rw [hafter] at hlater
  obtain ⟨hlast, hcalled'⟩ := forall_mem_calls (I := fun g' => g'.epoch ≤ g'.last)
    (fun hcalled hpast => hcalled.past hpast) hpast hlater
  exact hcalled'.ne_early hlast now epoch

end

end

/-- A running generator halts if and only if the first reading of a call is below the last one that it took up. The call
fails with both readings and leaves all but the halt as it was, and every later call fails too, with the same last
reading and without a reading of its own. No other failure halts; and once an id is minted no call finds the clock
before the epoch. -/
theorem halts_for_good (g : Generator) (clock : Clock) (patience count position : Nat) :
    (g.halted = false →
      ((∃ step, g.next patience clock position = some step ∧ step.Regresses) ↔ clock position < g.last)) ∧
    (∀ call ∈ g.calls patience clock count position, call.before.halted = false →
      (call.step.Regresses ↔ clock call.position < call.before.last) ∧
        (call.step.generator.halted = true ↔ call.step.Regresses) ∧
        ∀ now epoch, call.step.outcome = .error (.clockBeforeEpoch now epoch) ∨
          call.step.outcome = .error (.timestampOverflow now epoch) → call.step.generator.halted = false) ∧
    ∀ before call after, g.calls patience clock count position = before ++ call :: after →
      (call.step.Regresses →
        call.step = call.before.haltedBy clock call.position ∧ before.length + 1 + after.length = count ∧
          ∀ later ∈ after, later = ⟨call.step.generator, call.step.position,
            call.step.generator.refusal call.step.position⟩) ∧
      (call.id?.isSome → ∀ later ∈ after, ∀ now epoch, later.step.outcome ≠ .error (.clockBeforeEpoch now epoch)) := by
  refine ⟨?_, ?_, ?_⟩
  · intro hrunning
    constructor
    · rintro ⟨step, hnext, hregresses⟩
      exact (regresses_iff_of_next hrunning hnext).1 hregresses
    · intro hnow
      exact ⟨_, next_of_regression hrunning hnow, _, rfl, rfl⟩
  · intro call hcall hrunning
    obtain ⟨before, after, h⟩ := List.append_of_mem hcall
    obtain ⟨hnext, -⟩ := calls_split h
    have hcalled := called_of_next hnext
    exact ⟨regresses_iff_of_next hrunning hnext, hcalled.halted_iff hrunning,
      fun now epoch hother => hcalled.not_halted hrunning hother⟩
  · intro before call after h
    refine ⟨refused_of_split h, ?_⟩
    intro hminted later hlater now epoch
    exact ne_early_of_split h hminted hlater now epoch

/-- A clock that goes back by one millisecond, and then on. -/
def slippedClock : Clock :=
  Clock.ofRuns 0 [⟨10, 2⟩, ⟨9, 1⟩]

/-- The clock goes back after one id: the call that sees it and both calls after it fail, although the clock has caught
up by then. -/
theorem slippedClock_halts :
    ((twins true).calls 0 slippedClock 4 1).map (fun call => (call.id?, call.step.generator.halted)) =
        [(some 41947137, false), (none, true), (none, true), (none, true)] ∧
      ∀ before call after, (twins true).calls 0 slippedClock 4 1 = before ++ call :: after → call.step.Regresses →
        ∀ later ∈ after, later.step.outcome = .error (.halted call.before.last) := by
  refine ⟨rfl, ?_⟩
  intro before call after h hregresses later hlater
  obtain ⟨hstep, -, hrefused⟩ := ((halts_for_good (twins true) slippedClock 0 4 1).2.2 before call after h).1 hregresses
  rw [hrefused later hlater, hstep]
  rfl

end EntitySql.Ids
