import EntitySql.Json.Decode
import EntitySql.Proofs.Success

/-! What holds of all that a decoder gives, whatever it decodes: a property of the single values goes over to lists, to
fields and to records, written by name or by place. -/
namespace EntitySql.Json
variable {α β : Type} {decode : Decoder α} {fields : Fields α} {P : α → Prop} {Q : β → Prop}

/-- Whatever a decoder gives has a property. -/
def Yields (decode : Decoder α) (P : α → Prop) : Prop :=
  ∀ x a, decode x = .ok a → P a

/-- Whatever fields give has a property. -/
structure Fields.Yields (fields : Fields α) (P : α → Prop) : Prop where
  byMembers : ∀ size ms a, fields.byMembers size ms = .ok a → P a
  byPlaces : ∀ place items a rest, fields.byPlaces place items = .ok (a, rest) → P a

theorem yields_list (h : Yields decode P) : Yields (list decode) fun as => ∀ a ∈ as, P a := by
  intro x as hx
  cases x with
  | arr items =>
    rw [list] at hx
    induction items generalizing as with
    | nil =>
      obtain rfl : [] = as := Except.ok.inj hx
      exact fun _ hmem => nomatch hmem
    | cons y ys ih =>
      rw [decodeItems] at hx
      obtain ⟨a, ha, hrest⟩ := bind_eq_ok.1 hx
      obtain ⟨as', has', hcons⟩ := bind_eq_ok.1 hrest
      obtain rfl := pure_eq_ok.1 hcons
      exact List.forall_mem_cons.2 ⟨h y a ha, ih as' has'⟩
  | _ => cases hx

theorem Fields.yields_defaulted {name : String} {absent : α} (habsent : P absent) (h : Json.Yields decode P) :
    Yields (defaulted name absent decode) P where
  byMembers := by
    intro size ms a ha
    cases hown : ms.filter (·.1.1 == name) with
    | nil =>
      obtain rfl : absent = a := by simpa [defaulted, field, hown] using ha
      exact habsent
    | cons m more =>
      cases hx : decode m.1.2 with
      | error e => simp [defaulted, field, hown, hx] at ha
      | ok a' =>
        cases more with
        | nil =>
          obtain rfl : a' = a := by simpa [defaulted, field, hown, hx] using ha
          exact h _ _ hx
        | cons m' more => simp [defaulted, field, hown, hx] at ha
  byPlaces := by
    intro place items a rest ha
    cases items with
    | nil =>
      obtain ⟨rfl, -⟩ : absent = a ∧ [] = rest := by simpa [defaulted, field] using ha
      exact habsent
    | cons x items =>
      cases hx : decode x with
      | error e => simp [defaulted, field, hx] at ha
      | ok a' =>
        obtain ⟨rfl, -⟩ : a' = a ∧ items = rest := by simpa [defaulted, field, hx] using ha
        exact h _ _ hx

theorem Fields.Yields.map {g : α → β} (h : fields.Yields P) (hg : ∀ a, P a → Q (g a)) : Yields (g <$> fields) Q where
  byMembers := by
    intro size ms b hb
    change (apply (const g) fields).byMembers size ms = .ok b at hb
    cases ha : fields.byMembers size ms with
    | error e => simp [apply, const, ha] at hb
    | ok a =>
      obtain rfl : g a = b := by simpa [apply, const, ha] using hb
      exact hg a (h.byMembers size ms a ha)
  byPlaces := by
    intro place items b rest hb
    change (apply (const g) fields).byPlaces place items = .ok (b, rest) at hb
    cases ha : fields.byPlaces place items with
    | error e => simp [apply, const, ha] at hb
    | ok read =>
      obtain ⟨rfl, -⟩ : g read.1 = b ∧ read.2 = rest := by simpa [apply, const, ha] using hb
      exact hg _ (h.byPlaces place items _ _ ha)

theorem yields_record {expected : String} (h : fields.Yields P) : Yields (record expected fields) P := by
  intro x a hx
  cases x with
  | obj members =>
    rw [record, Fields.ofMembers] at hx
    split at hx
    · next hread _ =>
      obtain rfl := Except.ok.inj hx
      exact h.byMembers _ _ _ hread
    · cases hx
    · cases hx
    · cases hx
  | arr items =>
    rw [record, Fields.ofPlaces] at hx
    split at hx
    · cases hx
    · cases hx
    · next hread =>
      obtain rfl := Except.ok.inj hx
      exact h.byPlaces _ _ _ _ hread
    · cases hx
  | _ => cases hx

theorem yields_decodeText {text : String} {a : α} (h : Yields decode P) (ha : decodeText text decode = .ok a) :
    P a := by
  rw [decodeText, Document.decode] at ha
  obtain ⟨a', ha', hrest⟩ := bind_eq_ok.1 ha
  by_cases htrailing : (Document.ofText text).trailing
  · rw [if_pos htrailing] at hrest
    exact absurd hrest throw_ne_ok
  · rw [if_neg htrailing] at hrest
    obtain rfl := pure_eq_ok.1 hrest
    exact h _ _ ha'

end EntitySql.Json
