import EntitySql.Proofs.Ids.Minted

/-! Readings of a call. A call reads the clock once, unless the numbers of a millisecond have run out: then it waits for
the first reading above the last one, and returns if and only if there is one. What the clock shows later changes
nothing. -/
namespace EntitySql.Ids
open Generator

/-- The first reading above `last` from a position on. -/
structure Clock.FirstAbove (clock : Clock) (last : Int) (start found : Nat) : Prop where
  start_le : start ≤ found
  above : last < clock found
  skipped : ∀ i, start ≤ i → i < found → clock i ≤ last

/-- The call has to wait: the clock shows the millisecond of the last id, and all its numbers are used. -/
def Generator.Waits (g : Generator) (clock : Clock) (position : Nat) : Prop :=
  clock position = g.last ∧ g.epoch ≤ g.last ∧ g.sequence = maxSequence

/-- The call takes up a reading: its id tells this time, or it reports that this time does not fit. -/
def Generator.Takes (g : Generator) (now : Int) (step : Step) : Prop :=
  (∃ id : Nat, step.outcome = .ok id ∧ (decompose id g.epoch).timestamp = now) ∨
    step.outcome = .error (.timestampOverflow now g.epoch)

section
variable {clock clock' : Clock} {last now : Int} {start found patience position sequence : Nat} {g : Generator}
  {step : Step}

theorem Clock.firstAbove_eq_some :
    clock.firstAbove last start patience = some found ↔ clock.FirstAbove last start found ∧ found < start + patience := by
  induction patience generalizing start with
  | zero =>
    refine iff_of_false (by simp [firstAbove]) ?_
    rintro ⟨h, hlt⟩
    exact absurd hlt (Nat.not_lt.2 h.start_le)
  | succ patience ih =>
    rw [firstAbove]
    split
    · next habove =>
      constructor
      · intro h
        cases h
        exact ⟨⟨Nat.le_refl _, habove, fun i hi hlt => absurd hlt (Nat.not_lt.2 hi)⟩, by omega⟩
      · rintro ⟨h, -⟩
        obtain heq | hlt := Nat.eq_or_lt_of_le h.start_le
        · exact congrArg some heq
        · exact absurd habove (Int.not_lt.2 (h.skipped start (Nat.le_refl _) hlt))
    · next hbelow =>
      rw [ih]
      constructor
      · rintro ⟨h, hlt⟩
        refine ⟨⟨Nat.le_of_succ_le h.start_le, h.above, fun i hi hfound => ?_⟩, by omega⟩
        obtain rfl | hi := Nat.eq_or_lt_of_le hi
        · exact Int.not_lt.1 hbelow
        · exact h.skipped i hi hfound
      · rintro ⟨h, hlt⟩
        have hne : start ≠ found := by
          rintro rfl
          exact hbelow h.above
        have hle := h.start_le
        exact ⟨⟨by omega, h.above, fun i hi hfound => h.skipped i (by omega) hfound⟩, by omega⟩

theorem Clock.exists_firstAbove (h : ∃ later, start ≤ later ∧ last < clock later) :
    ∃ found, clock.FirstAbove last start found := by
  classical
  obtain ⟨hle, habove⟩ := Nat.find_spec h
  refine ⟨Nat.find h, hle, habove, fun i hi hlt => ?_⟩
  by_contra hbelow
  exact Nat.find_min h hlt ⟨hi, Int.not_le.1 hbelow⟩

theorem Clock.FirstAbove.congr (h : clock.FirstAbove last start found)
    (hclock : ∀ i, start ≤ i → i ≤ found → clock' i = clock i) : clock'.FirstAbove last start found where
  start_le := h.start_le
  above := by
    rw [hclock found h.start_le (Nat.le_refl _)]
    exact h.above
  skipped i hi hlt := by
    rw [hclock i hi hlt.le]
    exact h.skipped i hi hlt

theorem position_emit : (g.emit now sequence position).position = position := by
  unfold emit
  split <;> rfl

theorem sequence_emit : (g.emit now sequence position).generator.sequence = sequence := by
  unfold emit
  split <;> rfl

theorem takes_emit (hsequence : sequence < sequences) : g.Takes now (g.emit now sequence position) := by
  by_cases hfits : fits now g.epoch = true
  · have hfields : Parts.Fits ⟨now, g.worker, sequence⟩ g.epoch := ⟨hfits, g.worker.isLt, hsequence⟩
    rw [emit_of_fits hfits]
    refine .inl ⟨_, rfl, ?_⟩
    exact congrArg Parts.timestamp hfields.decompose_id
  · rw [emit_of_not_fits hfits]
    exact .inr rfl

/-- The number after the last one of a millisecond is none. -/
theorem next_sequence_eq_zero (hsequence : g.sequence ≤ maxSequence) :
    (g.sequence + 1) % sequences = 0 ↔ g.sequence = maxSequence := by
  have hmax : sequences = maxSequence + 1 := by decide
  constructor
  · intro hzero
    by_contra hroom
    rw [Nat.mod_eq_of_lt (by omega)] at hzero
    cases hzero
  · intro hfull
    rw [hfull, ← hmax, Nat.mod_self]

theorem next_of_waits (hrunning : g.halted = false) (hwaits : g.Waits clock position) :
    g.next patience clock position =
      (clock.firstAbove g.last (position + 1) patience).map fun found => g.emit (clock found) 0 (found + 1) := by
  obtain ⟨hnow, hepoch, hfull⟩ := hwaits
  have hzero : (g.sequence + 1) % sequences = 0 := (next_sequence_eq_zero hfull.le).2 hfull
  unfold next
  simp [hrunning, hnow, hzero, Int.not_lt.2 hepoch]

/-- Without a wait a call returns at once, and does what its first reading says. -/
theorem next_of_not_waits (hrunning : g.halted = false) (hsequence : g.sequence ≤ maxSequence)
    (hwaits : ¬g.Waits clock position) :
    ∃ step, step.position = position + 1 ∧
      ∀ patience clock', clock' position = clock position → g.next patience clock' position = some step := by
  by_cases hback : clock position < g.last
  · refine ⟨⟨.error (.clockMovedBackwards g.last (clock position)), { g with halted := true }, position + 1⟩, rfl, ?_⟩
    intro patience clock' hclock
    rw [next, if_neg (by simp [hrunning]), hclock, if_pos hback]
  by_cases hearly : clock position < g.epoch
  · refine ⟨⟨.error (.clockBeforeEpoch (clock position) g.epoch), g, position + 1⟩, rfl, ?_⟩
    intro patience clock' hclock
    rw [next, if_neg (by simp [hrunning]), hclock, if_neg hback, if_pos hearly]
  by_cases hlater : clock position > g.last
  · refine ⟨g.emit (clock position) 0 (position + 1), position_emit, ?_⟩
    intro patience clock' hclock
    rw [next, if_neg (by simp [hrunning]), hclock, if_neg hback, if_neg hearly, if_pos hlater]
  · have hroom : (g.sequence + 1) % sequences ≠ 0 := by
      rw [Ne, next_sequence_eq_zero hsequence]
      intro hfull
      exact hwaits ⟨by omega, by omega, hfull⟩
    refine ⟨g.emit (clock position) ((g.sequence + 1) % sequences) (position + 1), position_emit, ?_⟩
    intro patience clock' hclock
    rw [next, if_neg (by simp [hrunning]), hclock, if_neg hback, if_neg hearly, if_neg hlater]
    exact if_pos hroom

/-- A call that waits returns if and only if the clock passes the last reading, with what it does at the first reading
that does. -/
theorem next_eq_some_of_waits (hrunning : g.halted = false) (hwaits : g.Waits clock position) :
    g.next patience clock position = some step ↔ ∃ found, clock.FirstAbove g.last (position + 1) found ∧
      found < position + 1 + patience ∧ step = g.emit (clock found) 0 (found + 1) := by
  rw [next_of_waits hrunning hwaits, Option.map_eq_some_iff]
  constructor
  · rintro ⟨found, hfound, hstep⟩
    obtain ⟨habove, hpatience⟩ := Clock.firstAbove_eq_some.1 hfound
    exact ⟨found, habove, hpatience, hstep.symm⟩
  · rintro ⟨found, habove, hpatience, hstep⟩
    exact ⟨found, Clock.firstAbove_eq_some.2 ⟨habove, hpatience⟩, hstep.symm⟩

theorem Generator.Called.keeps_sequence (h : Called clock g position step) (hsequence : g.sequence ≤ maxSequence) :
    step.generator.sequence ≤ maxSequence := by
  have hmod : (g.sequence + 1) % sequences < sequences := Nat.mod_lt _ sequences_pos
  cases h with
  | halted => exact hsequence
  | backwards => exact hsequence
  | early => exact hsequence
  | later => exact sequence_emit.trans_le (Nat.zero_le _)
  | again => exact sequence_emit.trans_le (Nat.le_sub_one_of_lt hmod)
  | waited => exact sequence_emit.trans_le (Nat.zero_le _)

/-- A call that has returned does the same with any clock that shows the same up to its last reading. -/
theorem next_congr (hrunning : g.halted = false) (hsequence : g.sequence ≤ maxSequence)
    (h : g.next patience clock position = some step)
    (hclock : ∀ i, position ≤ i → i < step.position → clock' i = clock i) :
    g.next patience clock' position = some step := by
  by_cases hwaits : g.Waits clock position
  · obtain ⟨found, hfound, hpatience, rfl⟩ := (next_eq_some_of_waits hrunning hwaits).1 h
    rw [position_emit] at hclock
    have hle := hfound.start_le
    have hnow : clock' position = clock position := hclock position (Nat.le_refl _) (by omega)
    have hwaits' : g.Waits clock' position := ⟨hnow.trans hwaits.1, hwaits.2⟩
    have hfound' := hfound.congr fun i hi hlt => hclock i (by omega) (by omega)
    refine (next_eq_some_of_waits hrunning hwaits').2 ⟨found, hfound', hpatience, ?_⟩
    rw [hclock found (by omega) (by omega)]
  · obtain ⟨step', hposition, hnext⟩ := next_of_not_waits hrunning hsequence hwaits
    rw [hnext patience clock rfl] at h
    cases h
    exact hnext patience clock' (hclock position (Nat.le_refl _) (by omega))

end

/-- A call of a running generator reads the clock once, unless the first reading is the last millisecond, not before the
epoch, and its numbers have run out. Then it returns if and only if some later reading is above the last one; it has read
up to the first such reading, without being halted by those below it, and takes that one up. What the clock shows after
the readings of a call changes nothing; and the number that a call leaves is one of a millisecond again, as the number
zero of a new generator is. -/
theorem readings_of_call {g : Generator} (hrunning : g.halted = false) (hsequence : g.sequence ≤ maxSequence)
    (clock : Clock) (position : Nat) :
    (¬g.Waits clock position →
      ∃ step, (∀ patience, g.next patience clock position = some step) ∧ step.position = position + 1) ∧
    (g.Waits clock position →
      ((∃ patience step, g.next patience clock position = some step) ↔
        ∃ later, position + 1 ≤ later ∧ g.last < clock later) ∧
      ∀ patience step, g.next patience clock position = some step →
        ∃ found, clock.FirstAbove g.last (position + 1) found ∧ step.position = found + 1 ∧
          step.generator.halted = false ∧ g.Takes (clock found) step) ∧
    ∀ patience step, g.next patience clock position = some step →
      step.generator.sequence ≤ maxSequence ∧
        ∀ clock', (∀ i, position ≤ i → i < step.position → clock' i = clock i) →
          g.next patience clock' position = some step := by
  refine ⟨?_, ?_, ?_⟩
  · intro hwaits
    obtain ⟨step, hposition, hnext⟩ := next_of_not_waits hrunning hsequence hwaits
    exact ⟨step, fun patience => hnext patience clock rfl, hposition⟩
  · intro hwaits
    refine ⟨⟨?_, ?_⟩, ?_⟩
    · rintro ⟨patience, step, h⟩
      obtain ⟨found, hfound, -, -⟩ := (next_eq_some_of_waits hrunning hwaits).1 h
      exact ⟨found, hfound.start_le, hfound.above⟩
    · intro hlater
      obtain ⟨found, hfound⟩ := Clock.exists_firstAbove hlater
      exact ⟨found, _, (next_eq_some_of_waits hrunning hwaits).2 ⟨found, hfound, by omega, rfl⟩⟩
    · intro patience step h
      obtain ⟨found, hfound, -, rfl⟩ := (next_eq_some_of_waits hrunning hwaits).1 h
      exact ⟨found, hfound, position_emit, emit_keeps.2.2.trans hrunning, takes_emit sequences_pos⟩
  · intro patience step h
    exact ⟨(called_of_next h).keeps_sequence hsequence, fun clock' => next_congr hrunning hsequence h⟩

/-- A generator whose numbers of a millisecond have run out. -/
def worn : Generator :=
  { epoch := 0, worker := ⟨2, by decide⟩, last := 10, sequence := maxSequence }

/-- A clock that stays, goes back, comes again and then jumps ahead. -/
def jumpyClock : Clock :=
  Clock.ofRuns 0 [⟨10, 1⟩, ⟨9, 1⟩, ⟨10, 1⟩, ⟨12, 1⟩]

/-- The call reads the clock four times: a reading below the last one is skipped, and the first above it is taken. -/
theorem jumpyClock_read : worn.Waits jumpyClock 0 ∧ ∃ step, worn.next 4 jumpyClock 0 = some step ∧
    step.outcome = .ok 50339840 ∧ step.position = 4 ∧
      ∃ found, jumpyClock.FirstAbove 10 1 found ∧ step.position = found + 1 := by
  have hnext : worn.next 4 jumpyClock 0 = some (worn.emit 12 0 4) := rfl
  have hwaits : worn.Waits jumpyClock 0 := ⟨rfl, by decide, rfl⟩
  obtain ⟨found, hfound, hposition, -⟩ := ((readings_of_call rfl (Nat.le_refl _) jumpyClock 0).2.1 hwaits).2 4 _ hnext
  exact ⟨hwaits, _, hnext, rfl, rfl, found, hfound, hposition⟩

end EntitySql.Ids
