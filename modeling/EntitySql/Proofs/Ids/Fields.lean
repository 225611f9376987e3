import EntitySql.Proofs.Ids.Layout

/-! The fields of an id. An id is read back into the fields it was composed of, and every id is that of its own fields.
In signed 64-bit words, as long as the time itself is a word, nothing of a field is lost on the way there or back. -/
namespace EntitySql.Ids

/-- Fields that have room in the ids of an epoch. -/
structure Parts.Fits (p : Parts) (epoch : Int) : Prop where
  timestamp : fits p.timestamp epoch = true
  worker : p.worker < workers
  sequence : p.sequence < sequences

def Parts.id (p : Parts) (epoch : Int) : Nat :=
  compose (p.timestamp - epoch).toNat p.worker p.sequence

/-- A number that is a signed 64-bit word. -/
def IsWord (n : Int) : Prop :=
  -2 ^ 63 ≤ n ∧ n < 2 ^ 63

/-- The milliseconds since the epoch, as a difference of words. -/
def Parts.elapsedWord (p : Parts) (epoch : Int) : Int64 :=
  Int64.ofInt p.timestamp - Int64.ofInt epoch

/-- The id of the fields, composed in words. -/
def Parts.word (p : Parts) (epoch : Int) : Int64 :=
  p.elapsedWord epoch <<< Int64.ofNat (sequenceBits + workerBits) |||
    Int64.ofNat p.worker <<< Int64.ofNat sequenceBits ||| Int64.ofNat p.sequence

/-- The fields of an id, read off in words. -/
def Parts.ofWord (id epoch : Int64) : Parts where
  timestamp := (id >>> Int64.ofNat (sequenceBits + workerBits) + epoch).toInt
  worker := (id >>> Int64.ofNat sequenceBits &&& Int64.ofNat maxWorker).toInt.toNat
  sequence := (id &&& Int64.ofNat maxSequence).toInt.toNat

/-- Words compose the fields exactly: the difference does not overflow, the shifts push no bit out, the fields share
no bit, and the id is not negative. -/
structure Parts.Exact (p : Parts) (epoch : Int) : Prop where
  difference : (p.elapsedWord epoch).toInt = p.timestamp - epoch
  elapsedShift : (p.elapsedWord epoch <<< Int64.ofNat (sequenceBits + workerBits)).toInt =
    (p.timestamp - epoch) * 2 ^ 22
  workerShift : (Int64.ofNat p.worker <<< Int64.ofNat sequenceBits).toInt = p.worker * 2 ^ 12
  join : (p.word epoch).toInt = (p.timestamp - epoch) * 2 ^ 22 + p.worker * 2 ^ 12 + p.sequence
  nonneg : 0 ≤ p.word epoch
  id : (p.word epoch).toInt = p.id epoch

section
variable {p q : Parts} {epoch : Int}

theorem Parts.Fits.elapsed_le (h : p.Fits epoch) : (p.timestamp - epoch).toNat ≤ maxElapsed :=
  toNat_le_of_fits h.timestamp

theorem Parts.Fits.elapsed_eq (h : p.Fits epoch) : ((p.timestamp - epoch).toNat : Int) = p.timestamp - epoch := by
  have hepoch := (fits_iff.1 h.timestamp).1
  omega

theorem Parts.Fits.id_lt (h : p.Fits epoch) : p.id epoch < 2 ^ 63 :=
  compose_lt h.elapsed_le h.worker h.sequence

theorem decompose_natCast (id : Nat) (epoch : Int) :
    decompose id epoch = ⟨((id / 2 ^ 22 : Nat) : Int) + epoch, id / 2 ^ 12 % 2 ^ 10, id % 2 ^ 12⟩ := by
  have hshift : ∀ n : Nat, (id : Int) >>> n = ((id / 2 ^ n : Nat) : Int) := by
    intro n
    rw [Int.shiftRight_eq_div_pow]
    simp
  have hfield : ∀ a b : Nat, ((a : Int) % b).toNat = a % b := by
    intro a b
    rw [← Int.natCast_mod, Int.toNat_natCast]
  rw [decompose, hshift, hshift, hfield, hfield]
  rfl

theorem Parts.Fits.decompose_id (h : p.Fits epoch) : decompose (p.id epoch) epoch = p := by
  have hworker : p.worker < 2 ^ 10 := h.worker
  have hsequence : p.sequence < 2 ^ 12 := h.sequence
  have helapsed := h.elapsed_eq
  have hid : p.id epoch = (p.timestamp - epoch).toNat * 2 ^ 22 + p.worker * 2 ^ 12 + p.sequence :=
    compose_eq h.worker h.sequence
  have htop : p.id epoch / 2 ^ 22 = (p.timestamp - epoch).toNat := by omega
  have hmiddle : p.id epoch / 2 ^ 12 % 2 ^ 10 = p.worker := by omega
  have hlow : p.id epoch % 2 ^ 12 = p.sequence := by omega
  rw [decompose_natCast, htop, hmiddle, hlow, helapsed, Int.sub_add_cancel]

theorem fits_decompose {id : Nat} (hid : id < 2 ^ 63) : (decompose id epoch).Fits epoch := by
  have hmax : maxElapsed = 2 ^ 41 - 1 := by decide
  rw [decompose_natCast]
  refine ⟨fits_iff.2 ?_, Nat.mod_lt _ (by decide), Nat.mod_lt _ (by decide)⟩
  show epoch ≤ ((id / 2 ^ 22 : Nat) : Int) + epoch ∧ ((id / 2 ^ 22 : Nat) : Int) + epoch - epoch ≤ maxElapsed
  omega

theorem id_decompose (id : Nat) (epoch : Int) : (decompose id epoch).id epoch = id := by
  have hid : (decompose id epoch).id epoch = compose (id / 2 ^ 22) (id / 2 ^ 12 % 2 ^ 10) (id % 2 ^ 12) := by
    rw [decompose_natCast, Parts.id, Int.add_sub_cancel, Int.toNat_natCast]
  have hworker : id / 2 ^ 12 % 2 ^ 10 < workers := Nat.mod_lt _ (by decide)
  have hsequence : id % 2 ^ 12 < sequences := Nat.mod_lt _ (by decide)
  rw [hid, compose_eq hworker hsequence]
  omega

theorem compose_lt_iff_lex {e e' worker s s' : Nat} (hw : worker < workers) (hs : s < sequences)
    (hs' : s' < sequences) : compose e worker s < compose e' worker s' ↔ e < e' ∨ e = e' ∧ s < s' := by
  have hbound : worker < 2 ^ 10 := hw
  have hnumber : s < 2 ^ 12 := hs
  have hnumber' : s' < 2 ^ 12 := hs'
  rw [compose_eq hw hs, compose_eq hw hs']
  omega

/-- Ids of one worker are ordered by their times, and by their sequence numbers at one time. -/
theorem Parts.Fits.id_lt_iff (hp : p.Fits epoch) (hq : q.Fits epoch) (hworker : p.worker = q.worker) :
    p.id epoch < q.id epoch ↔ toLex (p.timestamp, p.sequence) < toLex (q.timestamp, q.sequence) := by
  have helapsed := hp.elapsed_eq
  have helapsed' := hq.elapsed_eq
  have htimes : (p.timestamp - epoch).toNat < (q.timestamp - epoch).toNat ↔ p.timestamp < q.timestamp := by omega
  have htime : (p.timestamp - epoch).toNat = (q.timestamp - epoch).toNat ↔ p.timestamp = q.timestamp := by omega
  rw [Parts.id, Parts.id, ← hworker, compose_lt_iff_lex hp.worker hp.sequence hq.sequence, htimes, htime,
    Prod.Lex.toLex_lt_toLex]

end

section
variable {n : Nat}

/-- The places of a shift are counted modulo 64, so a smaller number stands for itself. -/
theorem smod_of_lt (hn : n < 64) : (BitVec.ofNat 64 n).smod 64 = BitVec.ofNat 64 n := by
  have hmod : n % 2 ^ 64 = n := Nat.mod_eq_of_lt (by omega)
  have hn' : (BitVec.ofNat 64 n).toInt = n := by
    rw [BitVec.toInt_eq_toNat_of_lt] <;> rw [BitVec.toNat_ofNat, hmod]
    omega
  have h64 : (64 : BitVec 64).toInt = 64 := by decide
  apply BitVec.eq_of_toInt_eq
  rw [BitVec.toInt_smod, hn', h64, Int.fmod_eq_emod_of_nonneg _ (by decide)]
  omega

theorem ofNat_shiftLeft (a : Nat) (hn : n < 64) :
    Int64.ofNat a <<< Int64.ofNat n = Int64.ofNat (a <<< n) := by
  have hmod : n % 2 ^ 64 = n := Nat.mod_eq_of_lt (by omega)
  apply Int64.toBitVec_inj.1
  apply BitVec.eq_of_toNat_eq
  rw [Int64.toBitVec_shiftLeft, Int64.toBitVec_ofNat', Int64.toBitVec_ofNat', Int64.toBitVec_ofNat',
    smod_of_lt hn, BitVec.shiftLeft_eq', BitVec.toNat_shiftLeft, BitVec.toNat_ofNat, BitVec.toNat_ofNat,
    BitVec.toNat_ofNat, hmod, Nat.shiftLeft_eq, Nat.shiftLeft_eq, Nat.mod_mul_mod]

theorem ofNat_shiftRight {a : Nat} (ha : a < 2 ^ 63) (hn : n < 64) :
    Int64.ofNat a >>> Int64.ofNat n = Int64.ofNat (a >>> n) := by
  have hmod : n % 2 ^ 64 = n := Nat.mod_eq_of_lt (by omega)
  have hplaces : (Int64.ofNat n).toBitVec.smod 64 = BitVec.ofNat 64 n := by
    rw [Int64.toBitVec_ofNat', smod_of_lt hn]
  have hle : a >>> n ≤ a := Nat.shiftRight_le a n
  apply Int64.toInt_inj.1
  rw [Int64.toInt_ofNat_of_lt (by omega), ← Int64.toInt_toBitVec, Int64.toBitVec_shiftRight, hplaces,
    BitVec.sshiftRight', BitVec.toInt_sshiftRight, BitVec.toNat_ofNat, hmod, Int64.toInt_toBitVec,
    Int64.toInt_ofNat_of_lt ha]
  rfl

theorem ofNat_or (a b : Nat) : Int64.ofNat a ||| Int64.ofNat b = Int64.ofNat (a ||| b) := by
  apply Int64.toBitVec_inj.1
  simp

theorem ofNat_and (a b : Nat) : Int64.ofNat a &&& Int64.ofNat b = Int64.ofNat (a &&& b) := by
  apply Int64.toBitVec_inj.1
  simp

end

section
variable {p : Parts} {epoch : Int}

theorem Parts.Fits.elapsedWord_eq (h : p.Fits epoch) :
    p.elapsedWord epoch = Int64.ofNat (p.timestamp - epoch).toNat := by
  rw [elapsedWord, ← Int64.ofInt_sub, ← h.elapsed_eq, Int64.ofInt_eq_ofNat, Int.toNat_natCast]

theorem Parts.Fits.word_eq (h : p.Fits epoch) : p.word epoch = Int64.ofNat (p.id epoch) := by
  rw [word, h.elapsedWord_eq, ofNat_shiftLeft _ (by decide), ofNat_shiftLeft _ (by decide), ofNat_or, ofNat_or]
  rfl

theorem toInt_of_eq_ofNat {word : Int64} {n : Nat} (h : word = Int64.ofNat n) (hn : n < 2 ^ 63) : word.toInt = n := by
  rw [h, Int64.toInt_ofNat_of_lt hn]

theorem Parts.Fits.exact (h : p.Fits epoch) : p.Exact epoch := by
  have hmax : maxElapsed = 2 ^ 41 - 1 := by decide
  have hle := h.elapsed_le
  have helapsed := h.elapsed_eq
  have hworker : p.worker < 2 ^ 10 := h.worker
  have hid : (p.word epoch).toInt = p.id epoch := toInt_of_eq_ofNat h.word_eq h.id_lt
  have hsum : p.id epoch = (p.timestamp - epoch).toNat * 2 ^ 22 + p.worker * 2 ^ 12 + p.sequence :=
    compose_eq h.worker h.sequence
  refine ⟨?_, ?_, ?_, ?_, ?_, hid⟩
  · rw [toInt_of_eq_ofNat h.elapsedWord_eq (by omega), helapsed]
  · have hshift : p.elapsedWord epoch <<< Int64.ofNat (sequenceBits + workerBits) =
        Int64.ofNat ((p.timestamp - epoch).toNat * 2 ^ 22) := by
      rw [h.elapsedWord_eq, ofNat_shiftLeft _ (by decide), Nat.shiftLeft_eq]
      rfl
    rw [toInt_of_eq_ofNat hshift (by omega)]
    omega
  · have hshift : Int64.ofNat p.worker <<< Int64.ofNat sequenceBits = Int64.ofNat (p.worker * 2 ^ 12) := by
      rw [ofNat_shiftLeft _ (by decide), Nat.shiftLeft_eq]
      rfl
    rw [toInt_of_eq_ofNat hshift (by omega)]
    omega
  · rw [hid, hsum]
    omega
  · rw [Int64.le_iff_toInt_le, hid]
    exact Int.natCast_nonneg _

theorem exists_ofNat {id : Int64} (hid : 0 ≤ id) : ∃ n < 2 ^ 63, id = Int64.ofNat n := by
  have hnonneg : 0 ≤ id.toInt := Int64.le_iff_toInt_le.1 hid
  have hlt := id.toInt_lt
  refine ⟨id.toInt.toNat, by omega, ?_⟩
  rw [← Int64.ofInt_eq_ofNat, Int.toNat_of_nonneg hnonneg, Int64.ofInt_toInt]

/-- A mask of low bits leaves the remainder, as on numbers. -/
theorem toNat_masked {m : Nat} (hm : m < 2 ^ 63) (k : Nat) :
    (Int64.ofNat m &&& Int64.ofNat (2 ^ k - 1)).toInt.toNat = ((m : Int) % (2 ^ k : Nat)).toNat := by
  have hle : m % 2 ^ k ≤ m := Nat.mod_le m _
  rw [ofNat_and, Nat.and_two_pow_sub_one_eq_mod, Int64.toInt_ofNat_of_lt (by omega), Int.natCast_mod]

/-- In words the fields are read off as they are, as long as their time is a word. -/
theorem Parts.ofWord_eq {id epoch : Int64} (hid : 0 ≤ id)
    (htime : IsWord (id.toInt >>> (sequenceBits + workerBits) + epoch.toInt)) :
    Parts.ofWord id epoch = decompose id.toInt epoch.toInt := by
  obtain ⟨n, hn, rfl⟩ := exists_ofNat hid
  have hnumber : (Int64.ofNat n).toInt = n := Int64.toInt_ofNat_of_lt hn
  have hshifted : ∀ k, n >>> k < 2 ^ 63 := fun k => Nat.lt_of_le_of_lt (Nat.shiftRight_le n k) hn
  rw [hnumber] at htime
  have htimestamp : (Int64.ofNat n >>> Int64.ofNat (sequenceBits + workerBits) + epoch).toInt =
      (n : Int) >>> (sequenceBits + workerBits) + epoch.toInt := by
    rw [ofNat_shiftRight hn (by decide), Int64.toInt_add, Int64.toInt_ofNat_of_lt (hshifted _)]
    exact Int.bmod_eq_of_le (by simpa using htime.1) (by simpa using htime.2)
  have hworker : (Int64.ofNat n >>> Int64.ofNat sequenceBits &&& Int64.ofNat maxWorker).toInt.toNat =
      ((n : Int) >>> sequenceBits % workers).toNat := by
    rw [ofNat_shiftRight hn (by decide)]
    exact toNat_masked (hshifted _) workerBits
  have hsequence : (Int64.ofNat n &&& Int64.ofNat maxSequence).toInt.toNat = ((n : Int) % sequences).toNat :=
    toNat_masked hn sequenceBits
  rw [Parts.ofWord, decompose, hnumber, htimestamp, hworker, hsequence]

theorem toInt_ofInt_of_isWord {n : Int} (h : IsWord n) : (Int64.ofInt n).toInt = n := by
  rw [Int64.toInt_ofInt]
  exact Int.bmod_eq_of_le (by simpa using h.1) (by simpa using h.2)

/-- The fields of an id that was composed in words are read off in words as they were. -/
theorem Parts.Fits.ofWord_word (h : p.Fits epoch) (hepoch : IsWord epoch) (htime : IsWord p.timestamp) :
    Parts.ofWord (p.word epoch) (Int64.ofInt epoch) = p := by
  have hid := h.exact.id
  have hback := h.decompose_id
  have htimestamp : (p.word epoch).toInt >>> (sequenceBits + workerBits) + (Int64.ofInt epoch).toInt = p.timestamp := by
    rw [hid, toInt_ofInt_of_isWord hepoch]
    exact congrArg Parts.timestamp hback
  rw [Parts.ofWord_eq h.exact.nonneg (by rwa [htimestamp]), hid, toInt_ofInt_of_isWord hepoch, hback]

/-- Composing the fields of a word again gives the word back. -/
theorem Parts.word_ofWord {id epoch : Int64} (hid : 0 ≤ id)
    (htime : IsWord (id.toInt >>> (sequenceBits + workerBits) + epoch.toInt)) :
    (Parts.ofWord id epoch).Fits epoch.toInt ∧ (Parts.ofWord id epoch).word epoch.toInt = id := by
  obtain ⟨n, hn, rfl⟩ := exists_ofNat hid
  rw [Parts.ofWord_eq hid htime, Int64.toInt_ofNat_of_lt hn]
  have hfits : (decompose n epoch.toInt).Fits epoch.toInt := fits_decompose hn
  refine ⟨hfits, ?_⟩
  rw [hfits.word_eq, id_decompose]

end

end EntitySql.Ids
