import EntitySql.Proofs.Ids.Run

/-! The ids of a run increase, and no id comes twice, exactly as long as the clock does not return to a
millisecond whose numbers an overflow has lost. The overflow starts the numbers of the millisecond anew, but the
millisecond stays the one that was taken up last; if the clock reads it again, its first numbers come again. -/
namespace EntitySql.Ids
open Generator

/-- An overflow that loses the number of the last id. -/
def Call.LosesNumber (call : Call) : Prop :=
  (∃ e, call.step.outcome = .error e ∧ e.isOverflow = true) ∧ call.before.sequence ≠ 0

/-- A success in the millisecond that was taken up last. -/
def Call.Stays (call : Call) : Prop :=
  call.id?.isSome ∧ call.step.generator.last = call.before.last

/-- A success in the millisecond taken up last, after nothing but failures. -/
inductive Resumed : List Call → Prop where
  | now {call : Call} {rest : List Call} (h : call.Stays) : Resumed (call :: rest)
  | later {call : Call} {rest : List Call} (h : call.Fails) (hrest : Resumed rest) : Resumed (call :: rest)

/-- A millisecond is resumed after an overflow has lost its number: the clock has jumped ahead and come back. -/
inductive Rewound : List Call → Prop where
  | here {call : Call} {rest : List Call} (h : call.LosesNumber) (hrest : Resumed rest) : Rewound (call :: rest)
  | later {call : Call} {rest : List Call} (hrest : Rewound rest) : Rewound (call :: rest)

section
variable {call : Call} {rest : List Call} {id : Nat} {e : IdError}

theorem Call.id?_of_ok (h : call.step.outcome = .ok id) : call.id? = some id := by
  rw [Call.id?, h]
  rfl

theorem Call.fails_of_error (h : call.step.outcome = .error e) : call.Fails := by
  rw [Call.Fails, Call.id?, h]
  rfl

theorem minted_cons_of_ok (h : call.step.outcome = .ok id) : minted (call :: rest) = id :: minted rest := by
  rw [minted, List.filterMap_cons_some (Call.id?_of_ok h)]
  rfl

theorem minted_cons_of_error (h : call.step.outcome = .error e) : minted (call :: rest) = minted rest := by
  rw [minted, List.filterMap_cons_none (Call.fails_of_error h)]
  rfl

end

namespace Generator
variable {g : Generator} {calls : List Call}

def top (g : Generator) : Nat :=
  g.idOf maxSequence

theorem Mints.top_lt {g' : Generator} {id : Nat} (h : Mints g id g') (hepoch : g.epoch ≤ g.last)
    (hlast : g.last < g'.last) : g.top < id := by
  have helapsed := toNat_lt_toNat hepoch hlast
  rw [h.id_eq, top, idOf, idOf, h.epoch, h.worker]
  exact compose_lt_of_elapsed_lt g.worker.isLt (by decide) h.sequence_lt helapsed

theorem Mints.idOf_lt {g' : Generator} {id : Nat} (h : Mints g id g') (hlast : g'.last = g.last)
    (hsequence : g'.sequence = g.sequence + 1) : g.idOf g.sequence < id := by
  have hlt := h.sequence_lt
  rw [hsequence] at hlt
  rw [h.id_eq, idOf, idOf, h.epoch, h.worker, hlast, hsequence]
  exact (compose_lt_iff g.worker.isLt (by omega) hlt).2 (Nat.lt_succ_self _)

theorem Mints.le_top {g' : Generator} {id : Nat} (h : Mints g id g') : id ≤ g'.top := by
  rw [h.id_eq, top, idOf, idOf]
  exact (compose_le_iff g'.worker.isLt h.sequence_lt (by decide)).2 (Nat.le_sub_one_of_lt h.sequence_lt)

theorem Spares.idOf_eq {g' : Generator} {e : IdError} (h : Spares g e g') (sequence : Nat) :
    g'.idOf sequence = g.idOf sequence := by
  rw [idOf, idOf, h.epoch, h.worker, h.last]

theorem Spares.sequence_eq_of_kept {g' : Generator} {e : IdError} (h : Spares g e g')
    (hkept : ¬(e.isOverflow = true ∧ g.sequence ≠ 0)) : g'.sequence = g.sequence := by
  rw [h.sequence]
  split
  · next hoverflow =>
    by_contra hne
    exact hkept ⟨hoverflow, fun hzero => hne hzero.symm⟩
  · rfl

/-- Along a run that is not rewound every id is above those before it. The floor stands for an id minted before:
it is at most the id of the state, or its millisecond is not resumed. -/
theorem Run.increases (hrun : Run g calls) (hrewound : ¬Rewound calls) :
    (minted calls).Pairwise (· < ·) ∧
      ∀ floor ≤ g.top, g.epoch ≤ g.last → floor ≤ g.idOf g.sequence ∨ ¬Resumed calls →
        ∀ id ∈ minted calls, floor < id := by
  induction hrun with
  | done g => simp [minted]
  | @mint g position id step rest hok h hrest ih =>
    obtain ⟨hrestIncreases, hrestAbove⟩ := ih fun hr => hrewound (.later hr)
    have hpast : step.generator.epoch ≤ step.generator.last := (fits_iff.1 h.fits_last).1
    have habove : ∀ id' ∈ minted rest, id < id' :=
      hrestAbove id h.le_top hpast (.inl (Nat.le_of_eq h.id_eq))
    rw [minted_cons_of_ok hok]
    refine ⟨List.pairwise_cons.2 ⟨habove, hrestIncreases⟩, ?_⟩
    intro floor hfloor hepoch hlow
    have hid : floor < id := by
      obtain ⟨hlast, -⟩ | ⟨hlast, hsequence⟩ := h.advances
      · exact Nat.lt_of_le_of_lt hfloor (h.top_lt hepoch hlast)
      · obtain hlow | hresumed := hlow
        · exact Nat.lt_of_le_of_lt hlow (h.idOf_lt hlast hsequence)
        · exact absurd (.now ⟨by rw [Call.id?_of_ok hok]; rfl, hlast⟩) hresumed
    intro id' hmem
    obtain rfl | hmem := List.mem_cons.1 hmem
    · exact hid
    · exact Nat.lt_trans hid (habove id' hmem)
  | @fail g position step e rest herr h hrest ih =>
    obtain ⟨hrestIncreases, hrestAbove⟩ := ih fun hr => hrewound (.later hr)
    rw [minted_cons_of_error herr]
    refine ⟨hrestIncreases, ?_⟩
    intro floor hfloor hepoch hlow
    have hkept : floor ≤ step.generator.idOf step.generator.sequence ∨ ¬Resumed rest := by
      obtain hlow | hresumed := hlow
      · by_cases hlost : e.isOverflow = true ∧ g.sequence ≠ 0
        · -- The number is lost here, so the run would be rewound if the millisecond were resumed.
          exact .inr fun hr => hrewound (.here ⟨⟨e, herr, hlost.1⟩, hlost.2⟩ hr)
        · refine .inl ?_
          rw [h.idOf_eq, h.sequence_eq_of_kept hlost]
          exact hlow
      · exact .inr fun hr => hresumed (.later (Call.fails_of_error herr) hr)
    refine hrestAbove floor ?_ ?_ hkept
    · rw [top, h.idOf_eq]
      exact hfloor
    · rw [h.epoch, h.last]
      exact hepoch

theorem Run.first_mem_of_resumed (hrun : Run g calls) (hzero : g.sequence = 0) (hresumed : Resumed calls) :
    g.idOf 1 ∈ minted calls := by
  induction hrun with
  | done g => cases hresumed
  | @mint g position id step rest hok h hrest ih =>
    rw [minted_cons_of_ok hok]
    cases hresumed with
    | now hstays =>
      obtain ⟨hlast, -⟩ | ⟨hlast, hsequence⟩ := h.advances
      · exact absurd hstays.2 (Int.ne_of_gt hlast)
      · rw [h.id_eq, hsequence, hzero, idOf, idOf, h.epoch, h.worker, hlast]
        exact List.mem_cons_self
    | later hfails =>
      rw [Call.Fails, Call.id?_of_ok hok] at hfails
      cases hfails
  | @fail g position step e rest herr h hrest ih =>
    rw [minted_cons_of_error herr, ← h.idOf_eq]
    have hzero' : step.generator.sequence = 0 := by
      rw [h.sequence_eq_of_kept fun hlost => hlost.2 hzero, hzero]
    refine ih hzero' ?_
    cases hresumed with
    | now hstays =>
      have hsome := hstays.1
      rw [Call.fails_of_error herr] at hsome
      cases hsome
    | later _ hr => exact hr

/-- A rewound run repeats an id: the numbers of a millisecond start with one, so that id was minted before the
overflow and is minted again after it. -/
theorem Run.not_nodup_of_rewound (hrun : Run g calls) (hrewound : Rewound calls) {earlier : List Nat}
    (hfirst : g.sequence ≠ 0 → g.idOf 1 ∈ earlier) : ¬(earlier ++ minted calls).Nodup := by
  induction hrun generalizing earlier with
  | done g => cases hrewound
  | @mint g position id step rest hok h hrest ih =>
    rw [minted_cons_of_ok hok, List.append_cons]
    cases hrewound with
    | here hloses =>
      obtain ⟨e, herr, -⟩ := hloses.1
      rw [hok] at herr
      cases herr
    | later hr =>
      refine ih hr fun hsome => ?_
      obtain ⟨-, hsequence⟩ | ⟨hlast, hsequence⟩ := h.advances
      · exact absurd hsequence hsome
      · have hsame : step.generator.idOf 1 = g.idOf 1 := by
          rw [idOf, idOf, h.epoch, h.worker, hlast]
        by_cases hzero : g.sequence = 0
        · rw [h.id_eq, hsequence, hzero]
          simp
        · rw [hsame]
          exact List.mem_append_left _ (hfirst hzero)
  | @fail g position step e rest herr h hrest ih =>
    rw [minted_cons_of_error herr]
    cases hrewound with
    | here hloses hresumed =>
      obtain ⟨⟨e', herr', hoverflow⟩, hsome⟩ := hloses
      have he : e' = e := by
        rw [herr] at herr'
        exact (Except.error.inj herr').symm
      have hzero : step.generator.sequence = 0 := by
        rw [h.sequence, ← he, if_pos hoverflow]
      have hagain : g.idOf 1 ∈ minted rest := by
        rw [← h.idOf_eq]
        exact hrest.first_mem_of_resumed hzero hresumed
      exact fun hnodup => List.disjoint_of_nodup_append hnodup (hfirst hsome) hagain
    | later hr =>
      refine ih hr fun hsome => ?_
      rw [h.idOf_eq]
      refine hfirst fun hzero => hsome ?_
      rw [h.sequence_eq_of_kept fun hlost => hlost.2 hzero, hzero]

theorem Run.minted_lt (hrun : Run g calls) : ∀ id ∈ minted calls, id < 2 ^ 63 := by
  induction hrun with
  | done g => simp [minted]
  | @mint g position id step rest hok h hrest ih =>
    rw [minted_cons_of_ok hok]
    refine List.forall_mem_cons.2 ⟨?_, ih⟩
    rw [h.id_eq, idOf]
    exact compose_lt (toNat_le_of_fits h.fits_last) step.generator.worker.isLt h.sequence_lt
  | @fail g position step e rest herr h hrest ih =>
    rw [minted_cons_of_error herr]
    exact ih

end Generator

theorem word_of_lt {id : Nat} (h : id < 2 ^ 63) : 0 ≤ Int64.ofNat id ∧ (Int64.ofNat id).toInt = id := by
  have hid := Int64.toInt_ofNat_of_lt h
  refine ⟨Int64.le_iff_toInt_le.2 ?_, hid⟩
  rw [hid]
  exact Int.natCast_nonneg id

/-- The ids of a run are 64-bit words that are not negative. They increase, and no id comes twice, if and only if
the run is not rewound. -/
theorem ids_increase_iff {worker : Nat} {epoch : Int} {clock : Clock} {g : Generator} {position : Nat}
    (h : withClock worker epoch clock = (.ok g, position)) (patience count : Nat) :
    (∀ id ∈ minted (g.calls patience clock count position),
        0 ≤ Int64.ofNat id ∧ (Int64.ofNat id).toInt = id) ∧
      ((minted (g.calls patience clock count position)).Pairwise (· < ·) ↔
        ¬Rewound (g.calls patience clock count position)) ∧
      ((minted (g.calls patience clock count position)).Nodup ↔
        ¬Rewound (g.calls patience clock count position)) := by
  have hrun : Run g (g.calls patience clock count position) := run_calls (valid_of_withClock h)
  have hzero : g.sequence = 0 := by
    obtain ⟨w, -, rfl, -⟩ := eq_of_withClock h
    rfl
  have hnodup : (minted (g.calls patience clock count position)).Nodup →
      ¬Rewound (g.calls patience clock count position) := by
    intro hnd hrewound
    have hrepeats : ¬([] ++ minted (g.calls patience clock count position)).Nodup :=
      hrun.not_nodup_of_rewound hrewound fun hne => absurd hzero hne
    exact hrepeats hnd
  have hincrease := fun hrewound => (hrun.increases hrewound).1
  have hlt := fun (hp : (minted (g.calls patience clock count position)).Pairwise (· < ·)) =>
    hp.imp Nat.ne_of_lt
  exact ⟨fun id hid => word_of_lt (hrun.minted_lt id hid),
    ⟨fun hp => hnodup (hlt hp), hincrease⟩, ⟨hnodup, fun hr => hlt (hincrease hr)⟩⟩

/-- A clock that leaps ahead for one reading, and then goes on in the millisecond after. -/
def leapAhead : Clock :=
  Clock.ofRuns 0 [⟨10, 2⟩, ⟨2199023255572, 1⟩, ⟨11, 2⟩]

/-- A clock that leaps ahead for one reading, and then comes back. -/
def leapAndBack : Clock :=
  Clock.ofRuns 0 [⟨10, 2⟩, ⟨2199023255572, 1⟩, ⟨10, 1⟩]

def leapStart : Generator :=
  { epoch := 0, worker := ⟨1, by decide⟩, last := 10 }

/-- The overflow of a leap ahead does no harm by itself. -/
theorem leapAhead_not_rewound :
    withClock 1 0 leapAhead = (.ok leapStart, 1) ∧ ¬Rewound (leapStart.calls 0 leapAhead 4 1) :=
  have h : withClock 1 0 leapAhead = (.ok leapStart, 1) := rfl
  ⟨h, (ids_increase_iff h 0 4).2.1.1 (by decide)⟩

/-- Coming back to the millisecond of the last id mints that id again. -/
theorem leapAndBack_repeats_id :
    withClock 1 0 leapAndBack = (.ok leapStart, 1) ∧
      minted (leapStart.calls 0 leapAndBack 3 1) = [41947137, 41947137] ∧
      ¬(minted (leapStart.calls 0 leapAndBack 3 1)).Nodup := by
  have hminted : minted (leapStart.calls 0 leapAndBack 3 1) = [41947137, 41947137] := rfl
  refine ⟨rfl, hminted, ?_⟩
  rw [hminted]
  decide

end EntitySql.Ids
