import EntitySql.Ids.Generator
import EntitySql.Proofs.Ids.Layout

/-! Runs of a generator: calls for ids, one after another on one clock, whether they mint an id or fail.
`Called` lists all that one call can do; what a run keeps follows from what a call keeps. -/
namespace EntitySql.Ids

/-- A call that has returned: the generator before it, the position of its first reading, and what it left. -/
structure Call where
  before : Generator
  position : Nat
  step : Step

def Call.id? (call : Call) : Option Nat :=
  call.step.outcome.toOption

def Call.Fails (call : Call) : Prop :=
  call.id? = none

def IdError.isOverflow : IdError → Bool
  | timestampOverflow _ _ => true
  | _ => false

def minted (calls : List Call) : List Nat :=
  calls.filterMap Call.id?

namespace Generator

/-- Up to `count` calls, failures included. They end early only at a call that never returns. -/
def calls (patience : Nat) (clock : Clock) : (count : Nat) → Generator → (position : Nat) → List Call
  | 0, _, _ => []
  | count + 1, g, position =>
    match g.next patience clock position with
    | none => []
    | some step => ⟨g, position, step⟩ :: calls patience clock count step.generator step.position

/-- All that a call can do. -/
inductive Called (clock : Clock) (g : Generator) (position : Nat) : Step → Prop where
  | halted (h : g.halted = true) : Called clock g position ⟨.error (.halted g.last), g, position⟩
  | backwards (h : g.halted = false) (hnow : clock position < g.last) :
      Called clock g position
        ⟨.error (.clockMovedBackwards g.last (clock position)), { g with halted := true }, position + 1⟩
  | early (h : g.halted = false) (hnow : g.last ≤ clock position) (hepoch : clock position < g.epoch) :
      Called clock g position ⟨.error (.clockBeforeEpoch (clock position) g.epoch), g, position + 1⟩
  | later (h : g.halted = false) (hnow : g.last < clock position) (hepoch : g.epoch ≤ clock position) :
      Called clock g position (g.emit (clock position) 0 (position + 1))
  | again (h : g.halted = false) (hnow : clock position = g.last) (hepoch : g.epoch ≤ g.last)
      (hsequence : (g.sequence + 1) % sequences ≠ 0) :
      Called clock g position (g.emit g.last ((g.sequence + 1) % sequences) (position + 1))
  | waited (found : Nat) (h : g.halted = false) (hnow : clock position = g.last) (hepoch : g.epoch ≤ g.last)
      (hsequence : (g.sequence + 1) % sequences = 0) (hlater : g.last < clock found) :
      Called clock g position (g.emit (clock found) 0 (found + 1))

end Generator

theorem Clock.lt_of_firstAbove {clock : Clock} {last : Int} {start patience found : Nat}
    (h : clock.firstAbove last start patience = some found) : last < clock found := by
  induction patience generalizing start with
  | zero => simp [Clock.firstAbove] at h
  | succ patience ih =>
    rw [Clock.firstAbove] at h
    split at h
    · next hnow =>
      cases h
      exact hnow
    · exact ih h

namespace Generator
variable {clock : Clock} {g : Generator} {patience position count : Nat} {step : Step}

theorem called_of_next (h : g.next patience clock position = some step) : Called clock g position step := by
  unfold next at h
  split at h
  · next hhalted =>
    cases h
    exact .halted hhalted
  · next hhalted =>
    have hrunning : g.halted = false := by simpa using hhalted
    simp only at h
    split at h
    · next hnow =>
      cases h
      exact .backwards hrunning hnow
    · next hback =>
      have hlast : g.last ≤ clock position := by omega
      split at h
      · next hepoch =>
        cases h
        exact .early hrunning hlast hepoch
      · next hepoch =>
        split at h
        · next hnow =>
          cases h
          exact .later hrunning hnow (by omega)
        · next hnow =>
          have hsame : clock position = g.last := by omega
          have hpast : g.epoch ≤ g.last := by omega
          split at h
          · next hsequence =>
            rw [hsame] at h
            cases h
            exact .again hrunning hsame hpast hsequence
          · next hsequence =>
            obtain ⟨found, hfound, hstep⟩ := Option.map_eq_some_iff.1 h
            cases hstep
            exact .waited found hrunning hsame hpast (by simpa using hsequence)
              (Clock.lt_of_firstAbove hfound)

theorem emit_of_fits {now : Int} {sequence : Nat} (h : fits now g.epoch = true) :
    g.emit now sequence position =
      ⟨.ok (compose (now - g.epoch).toNat g.worker sequence), { g with last := now, sequence }, position⟩ := by
  rw [emit, if_pos h]

theorem emit_of_not_fits {now : Int} {sequence : Nat} (h : ¬fits now g.epoch = true) :
    g.emit now sequence position = ⟨.error (.timestampOverflow now g.epoch), { g with sequence }, position⟩ := by
  rw [emit, if_neg h]

/-- What holds of a generator between calls: a reading it has taken up fits unless it is before the epoch, and so
does the sequence number. -/
structure Valid (g : Generator) : Prop where
  fits_last : g.epoch ≤ g.last → fits g.last g.epoch = true
  sequence_lt : g.sequence < sequences

def idOf (g : Generator) (sequence : Nat) : Nat :=
  compose (g.last - g.epoch).toNat g.worker sequence

/-- What a call leaves that mints an id: the id of its own state, in a later millisecond than before or with the
next number of the same one. -/
structure Mints (g : Generator) (id : Nat) (g' : Generator) : Prop where
  epoch : g'.epoch = g.epoch
  worker : g'.worker = g.worker
  fits_last : fits g'.last g'.epoch = true
  id_eq : id = g'.idOf g'.sequence
  advances : g.last < g'.last ∧ g'.sequence = 0 ∨ g'.last = g.last ∧ g'.sequence = g.sequence + 1
  sequence_lt : g'.sequence < sequences

/-- What a call leaves that fails: all but the sequence number, which an overflow starts anew. -/
structure Spares (g : Generator) (e : IdError) (g' : Generator) : Prop where
  epoch : g'.epoch = g.epoch
  worker : g'.worker = g.worker
  last : g'.last = g.last
  sequence : g'.sequence = if e.isOverflow then 0 else g.sequence

theorem emit_later {now : Int} (hnow : g.last < now) :
    (∃ id, (g.emit now 0 position).outcome = .ok id ∧ Mints g id (g.emit now 0 position).generator) ∨
      ∃ e, (g.emit now 0 position).outcome = .error e ∧ Spares g e (g.emit now 0 position).generator := by
  by_cases hfits : fits now g.epoch = true
  · rw [emit_of_fits hfits]
    exact .inl ⟨_, rfl, ⟨rfl, rfl, hfits, rfl, .inl ⟨hnow, rfl⟩, sequences_pos⟩⟩
  · rw [emit_of_not_fits hfits]
    exact .inr ⟨_, rfl, ⟨rfl, rfl, rfl, rfl⟩⟩

/-- Every call either mints the id of the state that it leaves, or spares the millisecond it found. -/
theorem Called.mints_or_spares (hg : g.Valid) (h : Called clock g position step) :
    (∃ id, step.outcome = .ok id ∧ Mints g id step.generator) ∨
      ∃ e, step.outcome = .error e ∧ Spares g e step.generator := by
  cases h with
  | halted => exact .inr ⟨_, rfl, ⟨rfl, rfl, rfl, rfl⟩⟩
  | backwards => exact .inr ⟨_, rfl, ⟨rfl, rfl, rfl, rfl⟩⟩
  | early => exact .inr ⟨_, rfl, ⟨rfl, rfl, rfl, rfl⟩⟩
  | later _ hnow => exact emit_later hnow
  | again _ _ hepoch hsequence =>
    have hfits := hg.fits_last hepoch
    have hlt := hg.sequence_lt
    have hnext : (g.sequence + 1) % sequences = g.sequence + 1 := by
      refine Nat.mod_eq_of_lt (Nat.lt_of_le_of_ne hlt ?_)
      intro hfull
      exact hsequence (by rw [hfull, Nat.mod_self])
    rw [emit_of_fits hfits, hnext]
    exact .inl ⟨_, rfl, ⟨rfl, rfl, hfits, rfl, .inr ⟨rfl, rfl⟩, hnext ▸ Nat.mod_lt _ sequences_pos⟩⟩
  | waited found _ _ _ _ hlater => exact emit_later hlater

theorem Mints.valid {id : Nat} {g' : Generator} (h : Mints g id g') : g'.Valid :=
  ⟨fun _ => h.fits_last, h.sequence_lt⟩

theorem Spares.valid {e : IdError} {g' : Generator} (hg : g.Valid) (h : Spares g e g') : g'.Valid := by
  constructor
  · rw [h.epoch, h.last]
    exact hg.fits_last
  · rw [h.sequence]
    split
    · exact sequences_pos
    · exact hg.sequence_lt

theorem eq_of_withClock {worker : Nat} {epoch : Int} (h : withClock worker epoch clock = (.ok g, position)) :
    ∃ w : Fin workers, w.val = worker ∧ g = { epoch, worker := w, last := clock 0 } ∧ position = 1 ∧
      (epoch ≤ clock 0 → fits (clock 0) epoch = true) := by
  unfold withClock at h
  split at h
  · cases h
  · next w hw =>
    obtain ⟨hstart, hposition⟩ := Prod.mk.inj h
    unfold start at hstart
    split at hstart
    · cases hstart
    · next hfit =>
      cases hstart
      refine ⟨w, ?_, rfl, hposition.symm, fun hepoch => by simpa [hepoch] using hfit⟩
      unfold checkWorker at hw
      split at hw
      · cases hw
        rfl
      · cases hw

theorem valid_of_withClock {worker : Nat} {epoch : Int} (h : withClock worker epoch clock = (.ok g, position)) :
    g.Valid := by
  obtain ⟨w, -, rfl, -, hfits⟩ := eq_of_withClock h
  exact ⟨hfits, sequences_pos⟩

/-- A run as a history of what its calls did: each minted an id or spared the millisecond it found. -/
inductive Run : Generator → List Call → Prop where
  | done (g : Generator) : Run g []
  | mint {g : Generator} {position id : Nat} {step : Step} {rest : List Call} (hok : step.outcome = .ok id)
      (h : Mints g id step.generator) (hrest : Run step.generator rest) : Run g (⟨g, position, step⟩ :: rest)
  | fail {g : Generator} {position : Nat} {step : Step} {e : IdError} {rest : List Call}
      (herr : step.outcome = .error e) (h : Spares g e step.generator) (hrest : Run step.generator rest) :
      Run g (⟨g, position, step⟩ :: rest)

/-- The calls of a generator are such a history, since each leaves a valid generator to the next. -/
theorem run_calls (hg : g.Valid) : Run g (g.calls patience clock count position) := by
  induction count generalizing g position with
  | zero => exact .done g
  | succ count ih =>
    rw [calls]
    cases hnext : g.next patience clock position with
    | none => exact .done g
    | some step =>
      obtain ⟨id, hok, h⟩ | ⟨e, herr, h⟩ := (called_of_next hnext).mints_or_spares hg
      · exact .mint hok h (ih h.valid)
      · exact .fail herr h (ih (h.valid hg))

theorem calls_eq_cons {first : Call} {rest : List Call}
    (h : g.calls patience clock count position = first :: rest) :
    ∃ step left, count = left + 1 ∧ g.next patience clock position = some step ∧ first = ⟨g, position, step⟩ ∧
      rest = step.generator.calls patience clock left step.position := by
  cases count with
  | zero => cases h
  | succ left =>
    rw [calls] at h
    cases hnext : g.next patience clock position with
    | none =>
      rw [hnext] at h
      cases h
    | some step =>
      rw [hnext] at h
      obtain ⟨rfl, rfl⟩ := List.cons.inj h
      exact ⟨step, left, rfl, rfl, rfl, rfl⟩

/-- The calls after a call are those of the generator that it leaves. -/
theorem calls_split {before after : List Call} {call : Call}
    (h : g.calls patience clock count position = before ++ call :: after) :
    call.before.next patience clock call.position = some call.step ∧
      ∃ left, before.length + 1 + left = count ∧
        after = call.step.generator.calls patience clock left call.step.position := by
  induction before generalizing g count position with
  | nil =>
    obtain ⟨step, left, rfl, hnext, rfl, hafter⟩ := calls_eq_cons h
    exact ⟨hnext, left, by simp [Nat.add_comm], hafter⟩
  | cons first before ih =>
    obtain ⟨step, left, rfl, -, -, hrest⟩ := calls_eq_cons h
    obtain ⟨hcall, left', hleft, hafter⟩ := ih hrest.symm
    refine ⟨hcall, left', ?_, hafter⟩
    rw [List.length_cons, ← hleft]
    omega

/-- What each of the calls up to some call keeps holds before that call. -/
theorem holds_at_split {I : Generator → Prop} {before after : List Call} {call : Call}
    (h : g.calls patience clock count position = before ++ call :: after) (hg : I g)
    (hstep : ∀ c ∈ before, Called clock c.before c.position c.step → I c.before → I c.step.generator) :
    I call.before := by
  induction before generalizing g count position with
  | nil =>
    obtain ⟨step, left, -, -, rfl, -⟩ := calls_eq_cons h
    exact hg
  | cons first before ih =>
    obtain ⟨step, left, -, hnext, rfl, hrest⟩ := calls_eq_cons h
    have hkept := hstep _ List.mem_cons_self (called_of_next hnext) hg
    exact ih hrest.symm hkept fun c hc => hstep c (List.mem_cons_of_mem _ hc)

/-- What every call keeps holds before every call of a run. -/
theorem forall_mem_calls {I : Generator → Prop}
    (hstep : ∀ {g : Generator} {position : Nat} {step : Step}, Called clock g position step → I g → I step.generator)
    (hg : I g) {call : Call} (hcall : call ∈ g.calls patience clock count position) :
    I call.before ∧ Called clock call.before call.position call.step := by
  obtain ⟨before, after, h⟩ := List.append_of_mem hcall
  exact ⟨holds_at_split h hg fun c _ hcalled hc => hstep hcalled hc, called_of_next (calls_split h).1⟩

theorem emit_keeps {now : Int} {sequence : Nat} : (g.emit now sequence position).generator.epoch = g.epoch ∧
    (g.emit now sequence position).generator.worker = g.worker ∧
    (g.emit now sequence position).generator.halted = g.halted := by
  by_cases hfits : fits now g.epoch = true
  · rw [emit_of_fits hfits]
    exact ⟨rfl, rfl, rfl⟩
  · rw [emit_of_not_fits hfits]
    exact ⟨rfl, rfl, rfl⟩

theorem Called.keeps (h : Called clock g position step) :
    step.generator.epoch = g.epoch ∧ step.generator.worker = g.worker := by
  cases h with
  | halted => exact ⟨rfl, rfl⟩
  | backwards => exact ⟨rfl, rfl⟩
  | early => exact ⟨rfl, rfl⟩
  | later => exact ⟨emit_keeps.1, emit_keeps.2.1⟩
  | again => exact ⟨emit_keeps.1, emit_keeps.2.1⟩
  | waited => exact ⟨emit_keeps.1, emit_keeps.2.1⟩

end Generator

end EntitySql.Ids
