import EntitySql.Proofs.Ids.Fields
import EntitySql.Proofs.Ids.Run

/-! Minted ids and their fields. Whatever the state of a generator was, an id that it mints is that of the state it
leaves, so the id tells its time, its worker and its number. Of several generators that take turns each keeps its own
worker; hence ids of different workers differ. -/
namespace EntitySql.Ids
open Generator

/-- The fields of the id that a generator in this state has minted last. -/
def Generator.parts (g : Generator) : Parts :=
  ⟨g.last, g.worker, g.sequence⟩

/-- The fields of the id of a call. -/
def Call.parts? (call : Call) : Option Parts :=
  call.id?.map fun (id : Nat) => decompose id call.before.epoch

/-- A turn of one of several generators, with the readings of its call. Generators may share a clock: then each call
sees those of its readings that are left for it. -/
structure Turn (ι : Type) where
  who : ι
  clock : Clock
  patience : Nat
  position : Nat

/-- The calls of several generators that take turns. A call that does not return leaves its generator as it is. -/
def interleaved {ι : Type} [DecidableEq ι] (fleet : ι → Generator) : List (Turn ι) → List (ι × Call)
  | [] => []
  | turn :: rest =>
    match (fleet turn.who).next turn.patience turn.clock turn.position with
    | none => interleaved fleet rest
    | some step =>
      (turn.who, ⟨fleet turn.who, turn.position, step⟩) ::
        interleaved (Function.update fleet turn.who step.generator) rest

section
variable {clock : Clock} {g : Generator} {patience position count sequence id : Nat} {now : Int} {step : Step}

theorem fits_of_emit (hsequence : sequence < sequences) (hok : (g.emit now sequence position).outcome = .ok id) :
    (g.emit now sequence position).generator.parts.Fits g.epoch ∧
      id = (g.emit now sequence position).generator.parts.id g.epoch := by
  by_cases hfits : fits now g.epoch = true
  · rw [emit_of_fits hfits] at hok ⊢
    cases hok
    exact ⟨⟨hfits, g.worker.isLt, hsequence⟩, rfl⟩
  · rw [emit_of_not_fits hfits] at hok
    cases hok

/-- An id is that of the fields of the state that its call leaves. -/
theorem Generator.Called.id_eq (h : Called clock g position step) (hok : step.outcome = .ok id) :
    step.generator.parts.Fits g.epoch ∧ id = step.generator.parts.id g.epoch := by
  cases h with
  | halted => cases hok
  | backwards => cases hok
  | early => cases hok
  | later => exact fits_of_emit sequences_pos hok
  | again => exact fits_of_emit (Nat.mod_lt _ sequences_pos) hok
  | waited => exact fits_of_emit sequences_pos hok

theorem Generator.Called.decompose_id (h : Called clock g position step) (hok : step.outcome = .ok id) :
    decompose id g.epoch = step.generator.parts := by
  obtain ⟨hfits, rfl⟩ := h.id_eq hok
  exact hfits.decompose_id

theorem Generator.Called.worker_eq (h : Called clock g position step) (hok : step.outcome = .ok id) (epoch : Int) :
    (decompose id epoch).worker = g.worker := by
  have hparts := congrArg Parts.worker (h.decompose_id hok)
  -- the worker's bits do not depend on the epoch
  calc
    (decompose id epoch).worker = (decompose id g.epoch).worker := rfl
    _ = step.generator.worker := hparts
    _ = g.worker := by rw [h.keeps.2]

theorem ok_of_id? {call : Call} (h : call.id? = some id) : call.step.outcome = .ok id := by
  rw [Call.id?] at h
  cases houtcome : call.step.outcome with
  | ok id' =>
    rw [houtcome] at h
    exact congrArg Except.ok (Option.some.inj h)
  | error e =>
    rw [houtcome] at h
    cases h

theorem called_of_mem_calls {call : Call} (h : call ∈ g.calls patience clock count position) :
    (call.before.epoch = g.epoch ∧ call.before.worker = g.worker) ∧
      Called clock call.before call.position call.step := by
  refine forall_mem_calls (I := fun g' => g'.epoch = g.epoch ∧ g'.worker = g.worker) ?_ ⟨rfl, rfl⟩ h
  intro g' position' step hcalled hsame
  exact ⟨hcalled.keeps.1.trans hsame.1, hcalled.keeps.2.trans hsame.2⟩

/-- Every id of a run has fields with room in it, its generator's worker among them, and is their word. -/
theorem fields_of_mem_minted (h : id ∈ minted (g.calls patience clock count position)) :
    (decompose id g.epoch).Fits g.epoch ∧ (decompose id g.epoch).worker = g.worker ∧
      ((decompose id g.epoch).word g.epoch).toInt = id := by
  obtain ⟨call, hcall, hid⟩ := List.mem_filterMap.1 h
  obtain ⟨⟨hepoch, hworker⟩, hcalled⟩ := called_of_mem_calls hcall
  have hok := ok_of_id? hid
  obtain ⟨hfits, hcomposed⟩ := hcalled.id_eq hok
  have hparts := hcalled.decompose_id hok
  rw [hepoch] at hfits hcomposed hparts
  refine ⟨hparts ▸ hfits, ?_, ?_⟩
  · rw [hcalled.worker_eq hok, hworker]
  · rw [hparts, hfits.exact.id, ← hcomposed]

end

section
variable {ι : Type} [DecidableEq ι] {fleet : ι → Generator} {turns : List (Turn ι)} {i j : ι} {a b : Call} {id : Nat}

theorem worker_of_mem_interleaved (h : (i, a) ∈ interleaved fleet turns) (hid : a.id? = some id) :
    (decompose id 0).worker = (fleet i).worker := by
  induction turns generalizing fleet with
  | nil => cases h
  | cons turn rest ih =>
    rw [interleaved] at h
    cases hnext : (fleet turn.who).next turn.patience turn.clock turn.position with
    | none =>
      rw [hnext] at h
      exact ih h
    | some step =>
      have hcalled := called_of_next hnext
      rw [hnext] at h
      obtain hhere | hrest := List.mem_cons.1 h
      · cases hhere
        exact hcalled.worker_eq (ok_of_id? hid) 0
      · -- a step leaves every generator its worker, its own included
        rw [ih hrest]
        by_cases hi : i = turn.who
        · rw [hi, Function.update_self, hcalled.keeps.2]
        · rw [Function.update_of_ne hi]

theorem id?_ne_of_worker_ne (ha : (i, a) ∈ interleaved fleet turns) (hb : (j, b) ∈ interleaved fleet turns)
    (hworkers : (fleet i).worker ≠ (fleet j).worker) (hid : a.id? = some id) : b.id? ≠ some id := by
  intro hid'
  have hsame := (worker_of_mem_interleaved ha hid).symm.trans (worker_of_mem_interleaved hb hid')
  exact hworkers (Fin.ext hsame)

end

/-- Fields with room in an id are composed exactly in 64-bit words and read back as they were; a word that is no
negative number is composed of the fields that are read off it; and ids of one worker are ordered by time and number.
Hence every id of a run tells its generator's worker, and generators with different workers mint no id twice, however
their calls interleave and whatever clocks they read. -/
theorem ids_tell_fields :
    (∀ (p : Parts) (epoch : Int), p.Fits epoch → p.Exact epoch ∧ decompose (p.id epoch) epoch = p ∧
      (IsWord epoch → IsWord p.timestamp → Parts.ofWord (p.word epoch) (Int64.ofInt epoch) = p)) ∧
    (∀ id epoch : Int64, 0 ≤ id → IsWord (id.toInt >>> (sequenceBits + workerBits) + epoch.toInt) →
      Parts.ofWord id epoch = decompose id.toInt epoch.toInt ∧ (Parts.ofWord id epoch).Fits epoch.toInt ∧
        (Parts.ofWord id epoch).word epoch.toInt = id) ∧
    (∀ (p q : Parts) (epoch : Int), p.Fits epoch → q.Fits epoch → p.worker = q.worker →
      (p.id epoch < q.id epoch ↔ toLex (p.timestamp, p.sequence) < toLex (q.timestamp, q.sequence))) ∧
    (∀ (g : Generator) (clock : Clock) (patience count position : Nat),
      ∀ id ∈ minted (g.calls patience clock count position),
        (decompose id g.epoch).Fits g.epoch ∧ (decompose id g.epoch).worker = g.worker ∧
          ((decompose id g.epoch).word g.epoch).toInt = id) ∧
    ∀ (ι : Type) [DecidableEq ι] (fleet : ι → Generator) (turns : List (Turn ι)) (i j : ι) (a b : Call) (id : Nat),
      (i, a) ∈ interleaved fleet turns → (j, b) ∈ interleaved fleet turns →
        (fleet i).worker ≠ (fleet j).worker → a.id? = some id → b.id? ≠ some id := by
  refine ⟨?_, ?_, ?_, ?_, ?_⟩
  · intro p epoch h
    exact ⟨h.exact, h.decompose_id, h.ofWord_word⟩
  · intro id epoch hid htime
    exact ⟨Parts.ofWord_eq hid htime, Parts.word_ofWord hid htime⟩
  · intro p q epoch hp hq hworker
    exact hp.id_lt_iff hq hworker
  · intro g clock patience count position id hid
    exact fields_of_mem_minted hid
  · intro ι _ fleet turns i j a b id ha hb hworkers hid
    exact id?_ne_of_worker_ne ha hb hworkers hid

/-- Two generators that differ in their workers only. -/
def twins (i : Bool) : Generator :=
  { epoch := 0, worker := ⟨i.toNat, by cases i <;> decide⟩, last := 10 }

/-- The twins take turns on a clock that stands still. -/
def twinTurns : List (Turn Bool) :=
  [⟨false, fun _ => 10, 0, 1⟩, ⟨true, fun _ => 10, 0, 2⟩]

/-- At one time and with one number the twins mint different ids, and each tells its worker. -/
theorem twins_tell_fields :
    Parts.Fits ⟨10, 1, 1⟩ 0 ∧ decompose (Parts.id ⟨10, 1, 1⟩ 0) 0 = ⟨10, 1, 1⟩ ∧
      (interleaved twins twinTurns).map (fun turn => (turn.1, turn.2.id?)) =
        [(false, some 41943041), (true, some 41947137)] ∧
      ∀ a b : Call, ∀ id : Nat, (false, a) ∈ interleaved twins twinTurns → (true, b) ∈ interleaved twins twinTurns →
        a.id? = some id → b.id? ≠ some id :=
  have hfits : Parts.Fits ⟨10, 1, 1⟩ 0 := ⟨by decide, by decide, by decide⟩
  ⟨hfits, (ids_tell_fields.1 ⟨10, 1, 1⟩ 0 hfits).2.1, rfl, fun a b id ha hb =>
    ids_tell_fields.2.2.2.2 Bool twins twinTurns false true a b id ha hb (by decide)⟩

end EntitySql.Ids
