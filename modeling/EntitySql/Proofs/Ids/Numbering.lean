import EntitySql.Proofs.Ids.Minted

/-! The numbers of ids. An id takes the next number of the millisecond of the id before it, until the clock shows a
later one or the numbers run out; then it takes number zero of the millisecond that its call has read last. So the
numbers of a millisecond come one after another, as long as no overflow comes between. -/
namespace EntitySql.Ids
open Generator

/-- A generator as it is built at a reading. -/
def Generator.built (epoch : Int) (worker : Fin workers) (now : Int) : Generator :=
  { epoch, worker, last := now }

/-- The last reading that a call has taken. -/
def Call.lastReading (call : Call) (clock : Clock) : Int :=
  clock (call.step.position - 1)

/-- The call has found that a reading does not fit. -/
def Call.Overflows (call : Call) : Prop :=
  ∃ e, call.step.outcome = .error e ∧ e.isOverflow = true

/-- The numbers of the ids of a millisecond, in the order in which they were minted. -/
def numbersAt (time : Int) (calls : List Call) : List Nat :=
  ((calls.filterMap Call.parts?).filter (·.timestamp = time)).map Parts.sequence

/-- How the fields of an id follow from those of the id before it and from the first and the last reading of the
call. -/
def Follows (p q : Parts) (first last : Int) : Prop :=
  if p.timestamp < first ∨ p.sequence = maxSequence then
    p.timestamp < q.timestamp ∧ q.timestamp = last ∧ q.sequence = 0
  else q.timestamp = p.timestamp ∧ p.sequence < maxSequence ∧ q.sequence = p.sequence + 1

section
variable {clock : Clock} {g : Generator} {patience position count sequence id : Nat} {now : Int} {step : Step}

theorem emit_ok (hok : (g.emit now sequence position).outcome = .ok id) :
    fits now g.epoch = true ∧
      (g.emit now sequence position).generator = { g with last := now, sequence } ∧
      (g.emit now sequence position).position = position := by
  by_cases hfits : fits now g.epoch = true
  · rw [emit_of_fits hfits]
    exact ⟨hfits, rfl, rfl⟩
  · rw [emit_of_not_fits hfits] at hok
    cases hok

theorem Generator.Called.follows (h : Called clock g position step) (hok : step.outcome = .ok id)
    (hg : g.sequence < sequences) :
    Follows g.parts step.generator.parts (clock position) (clock (step.position - 1)) := by
  have hmax : sequences = maxSequence + 1 := by decide
  have hanew : ∀ {now : Int} {found : Nat}, g.last < clock position ∨ g.sequence = maxSequence → g.last < now →
      clock found = now → step = g.emit now 0 (found + 1) →
        Follows g.parts step.generator.parts (clock position) (clock (step.position - 1)) := by
    intro now found hwhy hlater hread hstep
    obtain ⟨-, hgenerator, hposition⟩ := emit_ok (hstep ▸ hok)
    rw [hstep, hgenerator, hposition, Nat.add_sub_cancel, hread]
    exact (if_pos hwhy).mpr ⟨hlater, rfl, rfl⟩
  cases h with
  | halted => cases hok
  | backwards => cases hok
  | early => cases hok
  | later _ hnow => exact hanew (.inl hnow) hnow rfl rfl
  | again _ hnow _ hsequence =>
    obtain ⟨-, hgenerator, -⟩ := emit_ok hok
    have hroom : g.sequence ≠ maxSequence := by
      intro hfull
      exact hsequence (by rw [hfull, ← hmax, Nat.mod_self])
    have hnext : (g.sequence + 1) % sequences = g.sequence + 1 := Nat.mod_eq_of_lt (by omega)
    have hwhy : ¬(g.last < clock position ∨ g.sequence = maxSequence) := by
      rintro (hlater | hfull)
      · omega
      · exact hroom hfull
    have hlt : g.sequence < maxSequence := by omega
    rw [hgenerator]
    exact (if_neg hwhy).mpr ⟨rfl, hlt, hnext⟩
  | waited found _ _ _ hsequence hlater =>
    have hfull : g.sequence = maxSequence := by
      by_contra hroom
      rw [Nat.mod_eq_of_lt (by omega)] at hsequence
      cases hsequence
    exact hanew (.inr hfull) hlater rfl rfl

theorem Generator.Called.last_le (h : Called clock g position step) (hok : step.outcome = .ok id) :
    g.last ≤ clock position ∧ g.last ≤ step.generator.last := by
  cases h with
  | halted => cases hok
  | backwards => cases hok
  | early => cases hok
  | later _ hnow =>
    rw [(emit_ok hok).2.1]
    exact ⟨hnow.le, hnow.le⟩
  | again _ hnow =>
    rw [(emit_ok hok).2.1]
    exact ⟨hnow.ge, le_refl _⟩
  | waited found _ hnow _ _ hlater =>
    rw [(emit_ok hok).2.1]
    exact ⟨hnow.ge, hlater.le⟩

/-- A call that fails leaves the millisecond, and without an overflow its number. -/
theorem Generator.Called.spares (h : Called clock g position step) (hfails : (Call.mk g position step).Fails) :
    step.generator.last = g.last ∧
      (¬(Call.mk g position step).Overflows → step.generator.sequence = g.sequence) := by
  have hemit : ∀ {now : Int} {sequence later : Nat}, step = g.emit now sequence later →
      step.generator.last = g.last ∧
        (¬(Call.mk g position step).Overflows → step.generator.sequence = g.sequence) := by
    intro now sequence later hstep
    by_cases hfits : fits now g.epoch = true
    · rw [emit_of_fits hfits] at hstep
      rw [hstep] at hfails
      cases hfails
    · rw [emit_of_not_fits hfits] at hstep
      rw [hstep]
      exact ⟨rfl, fun hfit => absurd ⟨_, rfl, rfl⟩ hfit⟩
  cases h with
  | halted => exact ⟨rfl, fun _ => rfl⟩
  | backwards => exact ⟨rfl, fun _ => rfl⟩
  | early => exact ⟨rfl, fun _ => rfl⟩
  | later => exact hemit rfl
  | again => exact hemit rfl
  | waited => exact hemit rfl

theorem Generator.Called.sequence_lt (h : Called clock g position step) (hok : step.outcome = .ok id) :
    step.generator.sequence < sequences :=
  (h.id_eq hok).1.sequence

theorem Generator.Called.parts?_eq (h : Called clock g position step) (hok : step.outcome = .ok id) :
    (Call.mk g position step).parts? = some step.generator.parts := by
  rw [Call.parts?, Call.id?, hok]
  exact congrArg some (h.decompose_id hok)

theorem ok_of_parts? {call : Call} {p : Parts} (h : call.parts? = some p) : ∃ id, call.step.outcome = .ok id := by
  obtain ⟨id, hid, -⟩ := Option.map_eq_some_iff.1 h
  exact ⟨id, ok_of_id? hid⟩

theorem Generator.Called.eq_parts {call : Call} {p : Parts} (h : Called clock call.before call.position call.step)
    (hp : call.parts? = some p) : p = call.step.generator.parts := by
  obtain ⟨id, hok⟩ := ok_of_parts? hp
  exact Option.some.inj (hp.symm.trans (h.parts?_eq hok))

end

theorem follows_congr {p p' q : Parts} {first last : Int} (htime : p.timestamp = p'.timestamp)
    (hnumber : p.sequence = p'.sequence) : Follows p q first last ↔ Follows p' q first last := by
  rw [Follows, Follows, htime, hnumber]

/-- Between two ids without an overflow between them, the generator keeps the millisecond and the number of the first,
so the second follows it. -/
theorem follows_of_split {clock : Clock} {g : Generator} {patience count position : Nat}
    {before between after : List Call} {first second : Call} {p q : Parts}
    (h : g.calls patience clock count position = before ++ first :: (between ++ second :: after))
    (hp : first.parts? = some p) (hq : second.parts? = some q)
    (hbetween : ∀ call ∈ between, call.Fails ∧ ¬call.Overflows) :
    Follows p q (clock second.position) (second.lastReading clock) := by
  obtain ⟨hfirst, left, -, hrest⟩ := calls_split h
  have hcalled := called_of_next hfirst
  have hcalled' := called_of_next (calls_split hrest.symm).1
  obtain ⟨id, hok⟩ := ok_of_parts? hp
  obtain ⟨id', hok'⟩ := ok_of_parts? hq
  have hkept : second.before.last = first.step.generator.last ∧
      second.before.sequence = first.step.generator.sequence := by
    refine holds_at_split (I := fun g' => g'.last = first.step.generator.last ∧
      g'.sequence = first.step.generator.sequence) hrest.symm ⟨rfl, rfl⟩ ?_
    intro call hcall hc hsame
    obtain ⟨hfails, hfit⟩ := hbetween call hcall
    obtain ⟨hlast, hsequence⟩ := hc.spares hfails
    exact ⟨hlast.trans hsame.1, (hsequence hfit).trans hsame.2⟩
  have hfollows := hcalled'.follows hok' (hkept.2 ▸ hcalled.sequence_lt hok)
  rw [hcalled.eq_parts hp, hcalled'.eq_parts hq]
  exact (follows_congr hkept.1 hkept.2).1 hfollows

/-- Before its first id a generator keeps the reading at which it was built, and number zero unless that reading does
not fit; so the first id has number one in that millisecond, and number zero in a later one. -/
theorem sequence_of_first {clock : Clock} {epoch now : Int} {worker : Fin workers} {patience count position : Nat}
    {before after : List Call} {first : Call} {p : Parts}
    (h : (built epoch worker now).calls patience clock count position = before ++ first :: after)
    (hbefore : ∀ call ∈ before, call.Fails) (hp : first.parts? = some p) :
    p.sequence = if clock first.position = now then 1 else 0 := by
  have hkept : first.before.epoch = epoch ∧ first.before.last = now ∧
      ((epoch ≤ now → fits now epoch = true) → first.before.sequence = 0) := by
    refine holds_at_split (I := fun g => g.epoch = epoch ∧ g.last = now ∧
      ((epoch ≤ now → fits now epoch = true) → g.sequence = 0)) h ⟨rfl, rfl, fun _ => rfl⟩ ?_
    rintro call hcall hc ⟨hepoch, hlast, hsequence⟩
    have hfails := hbefore call hcall
    refine ⟨hc.keeps.1.trans hepoch, (hc.spares hfails).1.trans hlast, fun hfit => ?_⟩
    have hzero := hsequence hfit
    have hvalid : call.before.Valid := ⟨by rwa [hepoch, hlast], by rw [hzero]; exact sequences_pos⟩
    obtain ⟨id, hok, -⟩ | ⟨e, -, hspares⟩ := hc.mints_or_spares hvalid
    · rw [Call.Fails, Call.id?, hok] at hfails
      cases hfails
    · rw [hspares.sequence, hzero, ite_self]
  obtain ⟨hepoch, hlast, hsequence⟩ := hkept
  have hcalled := called_of_next (calls_split h).1
  obtain ⟨id, hok⟩ := ok_of_parts? hp
  obtain ⟨hreading, hlater⟩ := hcalled.last_le hok
  -- the reading of the id fits, so that at which the generator was built does if it is not before the epoch
  have hzero : first.before.sequence = 0 := by
    refine hsequence fun hpast => fits_iff.2 ⟨hpast, ?_⟩
    have hmax := (fits_iff.1 (hcalled.id_eq hok).1.timestamp).2
    rw [hepoch] at hmax
    rw [hlast] at hlater
    have htime : first.step.generator.parts.timestamp = first.step.generator.last := rfl
    omega
  have hfollows := hcalled.follows hok (by rw [hzero]; exact sequences_pos)
  rw [← hcalled.eq_parts hp] at hfollows
  by_cases hsame : clock first.position = now
  · have hwhy : ¬(first.before.last < clock first.position ∨ first.before.sequence = maxSequence) := by
      rw [hsame, hlast, hzero]
      exact not_or.2 ⟨lt_irrefl now, by decide⟩
    obtain ⟨-, -, hnext⟩ := (if_neg hwhy).mp hfollows
    rw [if_pos hsame, hnext]
    exact congrArg (· + 1) hzero
  · have hwhy : first.before.last < clock first.position ∨ first.before.sequence = maxSequence := by
      rw [hlast] at hreading ⊢
      exact .inl (lt_of_le_of_ne hreading (Ne.symm hsame))
    rw [if_neg hsame]
    exact ((if_pos hwhy).mp hfollows).2.2

theorem numbersAt_cons {call : Call} {rest : List Call} {p : Parts} (hp : call.parts? = some p) (time : Int) :
    numbersAt time (call :: rest) =
      if p.timestamp = time then p.sequence :: numbersAt time rest else numbersAt time rest := by
  rw [numbersAt, List.filterMap_cons_some hp, List.filter_cons]
  by_cases htime : p.timestamp = time
  · simp [htime, numbersAt]
  · simp [htime, numbersAt]

theorem numbersAt_cons_of_fails {call : Call} {rest : List Call} (h : call.Fails) (time : Int) :
    numbersAt time (call :: rest) = numbersAt time rest := by
  have hnone : call.parts? = none := by rw [Call.parts?, h, Option.map_none]
  rw [numbersAt, List.filterMap_cons_none hnone, numbersAt]

/-- The numbers of a millisecond after a state, as long as there is no overflow: of its own millisecond they go on from
its number, of a later one they start with zero, and of an earlier one there are none. -/
structure GoesOn (g : Generator) (time : Int) (numbers : List Nat) : Prop where
  earlier : time < g.last → numbers = []
  same : time = g.last → numbers = List.range' (g.sequence + 1) numbers.length ∧
    g.sequence + 1 + numbers.length ≤ sequences
  later : g.last < time → numbers = List.range' 0 numbers.length ∧ numbers.length ≤ sequences

theorem goesOn_nil {g : Generator} (hg : g.sequence < sequences) (time : Int) : GoesOn g time [] :=
  ⟨fun _ => rfl, fun _ => ⟨rfl, hg⟩, fun _ => ⟨rfl, Nat.zero_le _⟩⟩

theorem GoesOn.anew {g g' : Generator} {time : Int} {numbers : List Nat} (h : GoesOn g' time numbers)
    (hg : g.sequence < sequences) (hlast : g.last < g'.last) (hzero : g'.sequence = 0) :
    GoesOn g time (if g'.last = time then g'.sequence :: numbers else numbers) := by
  have hempty : ∀ {t : Int}, t < g'.last → time = t →
      (if g'.last = time then g'.sequence :: numbers else numbers) = [] := by
    intro t ht htime
    rw [if_neg (by omega), h.earlier (by omega)]
  refine ⟨fun htime => hempty (htime.trans hlast) rfl, fun htime => ?_, fun htime => ?_⟩
  · rw [hempty hlast htime]
    exact ⟨rfl, hg⟩
  · obtain hbefore | hsame | hafter := lt_trichotomy time g'.last
    · rw [hempty hbefore rfl]
      exact ⟨rfl, Nat.zero_le _⟩
    · obtain ⟨hnumbers, hroom⟩ := h.same hsame
      rw [hzero, Nat.zero_add] at hnumbers hroom
      rw [if_pos hsame.symm, hzero, List.length_cons, List.range'_succ, Nat.zero_add, ← hnumbers]
      exact ⟨rfl, by omega⟩
    · rw [if_neg (by omega)]
      exact h.later hafter

theorem GoesOn.next {g g' : Generator} {time : Int} {numbers : List Nat} (h : GoesOn g' time numbers)
    (hlast : g'.last = g.last) (hsequence : g'.sequence = g.sequence + 1) :
    GoesOn g time (if g'.last = time then g'.sequence :: numbers else numbers) := by
  have hother : time ≠ g.last → (if g'.last = time then g'.sequence :: numbers else numbers) = numbers := by
    intro htime
    rw [if_neg (by omega)]
  refine ⟨fun htime => ?_, fun htime => ?_, fun htime => ?_⟩
  · rw [hother htime.ne]
    exact h.earlier (hlast ▸ htime)
  · obtain ⟨hnumbers, hroom⟩ := h.same (htime.trans hlast.symm)
    rw [hsequence] at hnumbers hroom
    rw [if_pos (hlast.trans htime.symm), hsequence, List.length_cons, List.range'_succ, ← hnumbers]
    exact ⟨rfl, by omega⟩
  · rw [hother htime.ne']
    exact h.later (hlast ▸ htime)

theorem goesOn_calls {clock : Clock} {g : Generator} {patience count position : Nat} (hg : g.sequence < sequences)
    (hfit : ∀ call ∈ g.calls patience clock count position, ¬call.Overflows) (time : Int) :
    GoesOn g time (numbersAt time (g.calls patience clock count position)) := by
  induction count generalizing g position with
  | zero => exact goesOn_nil hg time
  | succ count ih =>
    rw [calls] at hfit ⊢
    cases hnext : g.next patience clock position with
    | none => exact goesOn_nil hg time
    | some step =>
      have hcalled := called_of_next hnext
      rw [hnext] at hfit
      obtain ⟨hhere, hrest⟩ := List.forall_mem_cons.1 hfit
      cases houtcome : step.outcome with
      | error e =>
        have hfails : (Call.mk g position step).Fails := by rw [Call.Fails, Call.id?, houtcome]; rfl
        obtain ⟨hlast, hsequence⟩ := hcalled.spares hfails
        have hkept := hsequence hhere
        obtain ⟨hearlier, hsame, hlater⟩ := ih (by rwa [hkept]) hrest
        simp only [numbersAt_cons_of_fails hfails]
        rw [hlast] at hearlier hsame hlater
        rw [hkept] at hsame
        exact ⟨hearlier, hsame, hlater⟩
      | ok id =>
        have hparts := hcalled.parts?_eq houtcome
        have hfollows := hcalled.follows houtcome hg
        have hgoes := ih (hcalled.sequence_lt houtcome) hrest
        simp only [numbersAt_cons hparts]
        by_cases hwhy : g.last < clock position ∨ g.sequence = maxSequence
        · obtain ⟨hlast, -, hzero⟩ := (if_pos hwhy).mp hfollows
          exact hgoes.anew hg hlast hzero
        · obtain ⟨hlast, -, hsequence⟩ := (if_neg hwhy).mp hfollows
          exact hgoes.next hlast hsequence

/-- Of two ids with nothing but failures without an overflow between them, the second has the next number of the same
millisecond, unless its call reads a later one first or the numbers have run out; then it has number zero of the later
millisecond that the call reads last. The first id of a generator has number one if its call reads the millisecond in
which the generator was built, otherwise zero. Hence, without an overflow, the numbers of each millisecond follow one
another without a gap, and there are at most as many as fit. -/
theorem numbers_follow (epoch now : Int) (worker : Fin workers) (clock : Clock) (patience count position : Nat) :
    (∀ before first between second after p q,
      (built epoch worker now).calls patience clock count position =
          before ++ first :: (between ++ second :: after) →
        first.parts? = some p → second.parts? = some q → (∀ call ∈ between, call.Fails ∧ ¬call.Overflows) →
          Follows p q (clock second.position) (second.lastReading clock)) ∧
    (∀ before first after p,
      (built epoch worker now).calls patience clock count position = before ++ first :: after →
        (∀ call ∈ before, call.Fails) → first.parts? = some p →
          p.sequence = if clock first.position = now then 1 else 0) ∧
    ((∀ call ∈ (built epoch worker now).calls patience clock count position, ¬call.Overflows) → ∀ time : Int,
      let numbers := numbersAt time ((built epoch worker now).calls patience clock count position)
      numbers = List.range' (if time = now then 1 else 0) numbers.length ∧ numbers.length ≤ sequences) := by
  refine ⟨?_, ?_, ?_⟩
  · intro before first between second after p q h hp hq hbetween
    exact follows_of_split h hp hq hbetween
  · intro before first after p h hbefore hp
    exact sequence_of_first h hbefore hp
  · intro hfit time
    obtain ⟨hearlier, hsame, hlater⟩ := goesOn_calls (g := built epoch worker now) sequences_pos hfit time
    obtain htime | htime | htime := lt_trichotomy time now
    · rw [if_neg htime.ne, hearlier htime]
      exact ⟨rfl, Nat.zero_le _⟩
    · rw [if_pos htime]
      obtain ⟨hnumbers, hroom⟩ := hsame htime
      exact ⟨hnumbers, Nat.le_trans (Nat.le_add_left _ _) hroom⟩
    · rw [if_neg htime.ne']
      exact hlater htime

theorem not_overflows_of_isSome {call : Call} (h : call.id?.isSome) : ¬call.Overflows := by
  rintro ⟨e, herr, -⟩
  rw [Call.id?, herr] at h
  cases h

/-- A clock that stands for three readings, the first of them that of a new generator, and then goes on. -/
def steadyClock : Clock :=
  Clock.ofRuns 0 [⟨10, 3⟩]

/-- A generator that is built in the millisecond 10 numbers two ids there, from one on, and the third anew. -/
theorem steadyClock_numbers :
    let calls := (built 0 ⟨1, by decide⟩ 10).calls 0 steadyClock 3 1
    numbersAt 10 calls = [1, 2] ∧ numbersAt 11 calls = [0] ∧ (∀ call ∈ calls, ¬call.Overflows) ∧
      ∀ time, (numbersAt time calls).length ≤ sequences := by
  intro calls
  have hall : ∀ call ∈ calls, call.id?.isSome := by decide
  have hfit : ∀ call ∈ calls, ¬call.Overflows := fun call hcall => not_overflows_of_isSome (hall call hcall)
  have hnumbers := (numbers_follow 0 10 ⟨1, by decide⟩ steadyClock 0 3 1).2.2 hfit
  exact ⟨rfl, rfl, hfit, fun time => (hnumbers time).2⟩

end EntitySql.Ids
