import EntitySql.Proofs.Query.Locals

/-! Which bindings can be given a value. The values of resolved parameters always can, and what is computed from them.
The placeholders of raw SQL are looked up by their first names only, so a path that leads nowhere in its parameter is
compiled all the same. -/
namespace EntitySql.Query
open Fragment (Raw)
variable {t : Table} {op : Operation} {steps : List PreludeStep} {v : Value}

/-- The values that the declared parameters of an operation supply: single values whole, structures and rows by the
field. -/
inductive Supplied (t : Table) (op : Operation) : Value → Prop where
  | single {p : Param} {type : ValueType} (hp : p ∈ op.params) (htype : p.type = .scalar type) :
      Supplied t op (.param p.name)
  | member {p : Param} {fields : List CompositeField} {f : CompositeField} (hp : p ∈ op.params)
      (htype : p.type = .composite fields) (hf : f ∈ fields) : Supplied t op (.field p.name f.name)
  | column {p : Param} {column : Column} (hp : p ∈ op.params) (htype : p.type = .entity)
      (hcolumn : column ∈ t.columns.toList) : Supplied t op (.field p.name column.field)

/-- What a parameter declares, with its type: a single value, the fields of a structure that are not skipped, or the
columns of a row. -/
inductive Declared (t : Table) (p : Param) : Value → ValueType → Prop where
  | single {type : ValueType} (htype : p.type = .scalar type) : Declared t p (.param p.name) type
  | member {fields : List CompositeField} {f : CompositeField} (htype : p.type = .composite fields) (hf : f ∈ fields)
      (hskip : f.skip = false) : Declared t p (.field p.name f.name) f.type
  | column {column : Column} (htype : p.type = .entity) (hcolumn : column ∈ t.columns.toList) :
      Declared t p (.field p.name column.field) column.type

/-- The values that can be told from the parameters after the steps: those supplied, minted, or mapped to names. -/
inductive Resolvable (t : Table) (op : Operation) (steps : List PreludeStep) : Value → Prop where
  | supplied {v : Value} (h : Supplied t op v) : Resolvable t op steps v
  | minted {name generator column : String} (hstep : .generateId name generator column ∈ steps) :
      Resolvable t op steps (.computed name)
  | mapped {name : String} {source : Value} {nullable : Bool} (hstep : .enumNames name source nullable ∈ steps)
      (hsource : Resolvable t op steps source) : Resolvable t op steps (.computed name)

/-- A path leads to a value in a parameter: the empty one in a single value, otherwise that of a field in a structure or
row. -/
def Leads (t : Table) (p : Param) (path : List String) : Prop :=
  match p.type with
  | .scalar _ => path = []
  | .composite fields => path ≠ [] ∧ ∃ f ∈ fields, f.name = ".".intercalate path
  | .entity => path ≠ [] ∧ ∃ column ∈ t.columns.toList, column.field = ".".intercalate path

instance (t : Table) (p : Param) (path : List String) : Decidable (Leads t p path) :=
  match htype : p.type with
  | .scalar _ => decidable_of_iff (path = []) (by simp [Leads, htype])
  | .composite fields =>
    decidable_of_iff (path ≠ [] ∧ ∃ f ∈ fields, f.name = ".".intercalate path) (by simp [Leads, htype])
  | .entity =>
    decidable_of_iff (path ≠ [] ∧ ∃ column ∈ t.columns.toList, column.field = ".".intercalate path)
      (by simp [Leads, htype])

/-- A placeholder is declared: its path leads to a value in a parameter of its name. -/
def Declares (t : Table) (op : Operation) (placeholder : String × List String) : Prop :=
  ∃ p ∈ op.params, p.name = placeholder.1 ∧ Leads t p placeholder.2

instance (t : Table) (op : Operation) (placeholder : String × List String) : Decidable (Declares t op placeholder) :=
  inferInstanceAs (Decidable (∃ p ∈ op.params, _))

theorem rawBound_of_ne_nil {name : String} {path : List String} (h : path ≠ []) :
    (rawBound (name, path)).1 = .field name (".".intercalate path) := by
  cases path with
  | nil => exact absurd rfl h
  | cons field path => rfl

theorem supplied_rawBound {name : String} {path : List String} :
    Supplied t op (rawBound (name, path)).1 ↔ Declares t op (name, path) := by
  unfold Declares Leads
  by_cases hpath : path = []
  · subst hpath
    constructor
    · intro h
      cases h with
      | single hp htype => exact ⟨_, hp, rfl, by simp [htype]⟩
    · rintro ⟨p, hp, rfl, hdeclared⟩
      cases htype : p.type with
      | scalar type => exact .single hp htype
      | composite fields | entity => simp [htype] at hdeclared
  · rw [rawBound_of_ne_nil hpath]
    constructor
    · intro h
      -- The fields of `Supplied` are arbitrary texts: the cases unify only once the joined path is one too.
      generalize ".".intercalate path = joined at h ⊢
      cases h with
      | member hp htype hf => exact ⟨_, hp, rfl, by simpa [htype, hpath] using ⟨_, hf, rfl⟩⟩
      | column hp htype hcolumn => exact ⟨_, hp, rfl, by simpa [htype, hpath] using ⟨_, hcolumn, rfl⟩⟩
    · rintro ⟨p, hp, rfl, hdeclared⟩
      cases htype : p.type with
      | scalar type => simp [htype, hpath] at hdeclared
      | composite fields =>
        rw [htype] at hdeclared
        obtain ⟨-, f, hf, hname⟩ := hdeclared
        exact hname ▸ .member hp htype hf
      | entity =>
        rw [htype] at hdeclared
        obtain ⟨-, column, hcolumn, hname⟩ := hdeclared
        exact hname ▸ .column hp htype hcolumn

theorem supplied_rawSlot {name : String} {path : List String} :
    Supplied t op (rawSlot t op name path).value ↔ Declares t op (name, path) := by
  have hvalue : (rawSlot t op name path).value = (rawBound (name, path)).1 :=
    congrArg Prod.fst (@bound_rawSlot t op name path)
  rw [hvalue, supplied_rawBound]

/-- Every value that a parameter binds to a column is declared by it. -/
theorem exists_declared {p : Param} {target : Target} (htarget : target ∈ targetsOf t p) : ∃ type, Declared t p target.value type := by
  unfold targetsOf at htarget
  cases htype : p.type with
  | scalar type =>
    simp only [htype] at htarget
    have hvalue : target.value = .param p.name := by
      split at htarget
      · obtain ⟨column, -, rfl⟩ := List.mem_map.1 htarget
        rfl
      · obtain ⟨column, -, rfl⟩ := List.mem_map.1 htarget
        rfl
    exact ⟨type, hvalue ▸ .single htype⟩
  | composite fields =>
    simp only [htype] at htarget
    obtain ⟨f, hf, hmap⟩ := List.mem_filterMap.1 htarget
    obtain ⟨column, -, rfl⟩ := Option.map_eq_some_iff.1 hmap
    obtain ⟨hmem, hskip⟩ := List.mem_filter.1 hf
    exact ⟨f.type, .member htype hmem (by simpa using hskip)⟩
  | entity =>
    simp only [htype] at htarget
    obtain ⟨column, hcolumn, rfl⟩ := List.mem_map.1 htarget
    exact ⟨column.type, .column htype hcolumn⟩

theorem Declared.parameter_eq {p : Param} {type : ValueType} (h : Declared t p v type) : v.parameter? = some p.name := by
  cases h <;> rfl

/-- The value of a resolved parameter is supplied. -/
theorem supplied_of_target {p : Param} (hp : p ∈ op.params) {target : Target} (h : target ∈ targetsOf t p) :
    Supplied t op target.value := by
  obtain ⟨type, hdeclared⟩ := exists_declared h
  generalize target.value = value at hdeclared
  cases hdeclared with
  | single htype => exact .single hp htype
  | member htype hf => exact .member hp htype hf
  | column htype hcolumn => exact .column hp htype hcolumn

theorem resolvable_of_parameter? (hv : v.parameter?.isSome) : Resolvable t op steps v ↔ Supplied t op v := by
  refine ⟨fun h => ?_, .supplied⟩
  cases h with
  | supplied h => exact h
  | minted | mapped => cases hv

/-- Encoding a value does not change whether it can be told: the step that maps an array is the only one of its name. -/
theorem Binding.Encodes.resolvable_iff {b : Binding} {s : Slot} (h : b.Encodes steps s)
    (hnames : (steps.map PreludeStep.name).Nodup) :
    Resolvable t op steps b.value ↔ Resolvable t op steps s.value := by
  by_cases htype : s.type = some ⟨.enum, true⟩
  · obtain ⟨name, nullable, hvalue, hstep⟩ := h.mapped htype
    have hunique : ∀ step ∈ steps, step.name = name → step = .enumNames name s.value nullable :=
      fun step hmem hname => List.inj_on_of_nodup_map hnames hmem hstep hname
    rw [hvalue]
    refine ⟨fun hname => ?_, .mapped hstep⟩
    cases hname with
    | supplied hsupplied => cases hsupplied
    | minted hminted => cases hunique _ hminted rfl
    | mapped hmapped hsource =>
      cases hunique _ hmapped rfl
      exact hsource
  · rw [h.plain htype]

/-- A placeholder whose value has a known type is declared. -/
theorem declares_of_typed {name : String} {path : List String} {type : ValueType}
    (h : (rawSlot t op name path).type = some type) : Declares t op (name, path) := by
  obtain ⟨p, hp, htype⟩ := Option.bind_eq_some_iff.1 h
  have hname : p.name = name := by simpa using List.find?_some hp
  refine ⟨p, List.mem_of_find?_eq_some hp, hname, ?_⟩
  unfold valueType? at htype
  unfold Leads
  split at htype
  · next hscalar => simp [hscalar]
  · next fields field hcomposite =>
    obtain ⟨f, hf, -⟩ := Option.map_eq_some_iff.1 htype
    have hfield : f.name = field := by simpa using List.find?_some hf
    simpa [hcomposite] using ⟨f, List.mem_of_find?_eq_some hf, hfield⟩
  · next field hentity =>
    obtain ⟨column, hcolumn, -⟩ := Option.map_eq_some_iff.1 htype
    have hfield : column.field = field := by simpa using List.find?_some hcolumn
    simpa [hentity] using ⟨column, List.mem_of_find?_eq_some hcolumn, hfield⟩
  · cases htype

section
variable {p : Plan} {name : String} {path : List String}

theorem rawSlot_mem_rawPieces {raw : Raw} (h : (name, path) ∈ placeholders raw) :
    rawSlot t op name path ∈ slots (rawPieces t op raw) := by
  rw [slots_rawPieces]
  exact List.mem_map.2 ⟨(name, path), h, rfl⟩

theorem rawSlot_mem_fullFilter {raw : Raw} (hraw : rawPredicate? op = some raw) (h : (name, path) ∈ placeholders raw)
    (params : List BoundParam) : rawSlot t op name path ∈ slots (fullFilter t op params).pieces := by
  rw [slots_fullFilter]
  refine List.mem_append_right _ (List.mem_flatMap.2 ⟨raw, Option.mem_toList.2 hraw, ?_⟩)
  exact rawSlot_mem_rawPieces h

/-- Every placeholder of raw SQL is bound. -/
theorem Planned.rawSlot_mem (h : Planned t op p) (hkind : op.kind.isInsert = false) (hmem : (name, path) ∈ spliced op) :
    rawSlot t op name path ∈ p.slots := by
  obtain ⟨raw, hraw, hplaceholder⟩ := (mem_spliced hkind).1 hmem
  refine List.mem_append_left _ ?_
  have hpredicate : op.kind ≠ .selectRawExpression → rawPredicate? op = some raw := by
    intro hnot
    obtain hexpression | hpredicate := hraw
    · rw [rawExpression?, if_neg hnot] at hexpression
      cases hexpression
    · exact hpredicate
  -- All statements but a select of a raw expression have raw SQL in their filters only.
  cases h with
  | insert hinsert => simp [hkind] at hinsert
  | update hupdate =>
    rw [Statement.slots_update]
    exact List.mem_append_right _ (rawSlot_mem_fullFilter (hpredicate (by simp [hupdate])) hplaceholder _)
  | delete hdelete =>
    rw [Statement.slots_delete]
    exact rawSlot_mem_fullFilter (hpredicate (by simp [hdelete])) hplaceholder _
  | count hcount =>
    rw [Statement.slots_count]
    exact rawSlot_mem_fullFilter (hpredicate (by rcases hcount with h | h <;> simp [h])) hplaceholder _
  | select _ hselection =>
    rw [Statement.slots_select]
    obtain hexpression | hpredicate := hraw
    · obtain ⟨hnone, -⟩ | ⟨raw', hraw', rfl⟩ := selection_cases hselection
      · simp [hnone] at hexpression
      · obtain rfl : raw = raw' := Option.some.inj (hexpression.symm.trans hraw')
        exact List.mem_append_left _ (rawSlot_mem_rawPieces hplaceholder)
    · exact List.mem_append_right _ (rawSlot_mem_fullFilter hpredicate hplaceholder _)

theorem exists_param_of_spliced (h : plan t op = .ok p) (hkind : op.kind.isInsert = false)
    (hmem : (name, path) ∈ spliced op) : ∃ q ∈ op.params, q.name = name := by
  obtain ⟨raw, hraw, hplaceholder⟩ := (mem_spliced hkind).1 hmem
  obtain ⟨segment, hsegment, hnamed⟩ := List.mem_filterMap.1 hplaceholder
  have hname : name ∈ raw.parameterNames := by
    refine List.mem_filterMap.2 ⟨segment, hsegment, ?_⟩
    cases segment with
    | text sql => cases hnamed
    | placeholder name' path' =>
      cases hnamed
      rfl
  have hnames : name ∈ rawNames op := List.mem_flatMap.2 ⟨raw, by simpa using hraw, hname⟩
  exact (resolveParams_eq_ok.1 (resolved_of_plan h)).2.1 name (mem_rawNames.1 hnames)

/-- A slot can be told, or it is a placeholder that is not declared; then the type of its value is not known. -/
theorem Planned.resolvable_or (h : Planned t op p) {s : Slot} (hs : s ∈ p.slots) :
    Resolvable t op p.steps s.value ∨
      op.kind.isInsert = false ∧ ∃ name path, (name, path) ∈ spliced op ∧ ¬Declares t op (name, path) ∧
        s = rawSlot t op name path := by
  obtain ⟨i, column, generator, -, -, hstep, rfl⟩ | hstands := h.minted_or_standsFor hs
  · exact .inl (.minted (List.mem_append_left _ hstep))
  · cases hstands with
    | target hq htarget _ => exact .inl (.supplied (supplied_of_target hq htarget))
    | @placeholder name path hmem =>
      by_cases hdeclared : Declares t op (name, path)
      · exact .inl (.supplied (supplied_rawSlot.2 hdeclared))
      · exact .inr ⟨isInsert_of_mem_spliced hmem, name, path, hmem, hdeclared, rfl⟩

/-- A binding of a placeholder that names a parameter but leads to no value in it. -/
def Dangles (t : Table) (op : Operation) (b : Binding) : Prop :=
  ∃ placeholder ∈ spliced op, ¬Declares t op placeholder ∧ (b.value, b.column) = rawBound placeholder ∧
    ∃ q ∈ op.params, q.name = placeholder.1

theorem resolvable_or_dangles (h : plan t op = .ok p) {b : Binding} {s : Slot} (hs : s ∈ p.slots)
    (hslot : b.Encodes p.steps s) :
    Resolvable t op p.steps b.value ∨ Dangles t op b := by
  have hp := planned_of_plan h
  obtain hresolvable | ⟨hkind, name, path, hmem, hundeclared, rfl⟩ := hp.resolvable_or hs
  · exact .inl ((hslot.resolvable_iff hp.distinct).2 hresolvable)
  · have hplain : b.value = (rawSlot t op name path).value :=
      hslot.plain fun htype => hundeclared (declares_of_typed htype)
    refine .inr ⟨(name, path), hmem, hundeclared, ?_, exists_param_of_spliced h hkind hmem⟩
    rw [hplain, hslot.column]
    exact bound_rawSlot name path

theorem Planned.declares_of_resolvable (h : Planned t op p) (hmem : (name, path) ∈ spliced op)
    (hall : ∀ s ∈ p.slots, Resolvable t op p.steps s.value) :
    Declares t op (name, path) := by
  cases hkind : op.kind.isInsert with
  | true => simp [spliced, hkind] at hmem
  | false =>
    have hs := h.rawSlot_mem hkind hmem
    exact supplied_rawSlot.1 ((resolvable_of_parameter? (h.slots_supplied hkind hs)).1 (hall _ hs))

end

/-- The bindings of an operation can be told from its parameters exactly if each placeholder in its statements is
declared. One that cannot be told is that of a placeholder, which names a parameter but leads to no value in it. -/
theorem resolvable_iff_declared {d : Dialect} {compiled : CompiledOperation} (h : op.compile d t = .ok compiled) :
    ((∀ b ∈ compiled.bindings, Resolvable t op compiled.prelude b.value) ↔
      ∀ placeholder ∈ spliced op, Declares t op placeholder) ∧
    ∀ b ∈ compiled.bindings, Resolvable t op compiled.prelude b.value ∨ Dangles t op b := by
  obtain ⟨p, hplan, rfl⟩ := compile_eq_ok.1 h
  have hp := planned_of_plan hplan
  rw [Plan.prelude_compile, Plan.bindings_compile]
  have hbindings : ∀ b ∈ p.bindings, Resolvable t op p.steps b.value ∨ Dangles t op b := by
    intro b hb
    obtain ⟨s, hs, hslot⟩ := exists_of_forall₂ p.encodes hb
    exact resolvable_or_dangles hplan hs hslot
  refine ⟨⟨fun hall placeholder hmem => ?_, fun hdeclared b hb => ?_⟩, hbindings⟩
  · refine hp.declares_of_resolvable hmem fun s hs => ?_
    obtain ⟨b, hb, hslot⟩ := exists_of_mem_forall₂ p.encodes hs
    exact (hslot.resolvable_iff hp.distinct).1 (hall b hb)
  · obtain hresolvable | ⟨placeholder, hmem, hundeclared, -⟩ := hbindings b hb
    · exact hresolvable
    · exact absurd (hdeclared placeholder hmem) hundeclared

set_option maxRecDepth 4000 in
/-- The array of badges is told by its parameter, also where it is bound by its names. -/
theorem award_resolvable : ∃ compiled, Operation.compile .postgres badges award = .ok compiled ∧
    ∀ b ∈ compiled.bindings, Resolvable badges award compiled.prelude b.value := by
  obtain ⟨compiled, h⟩ := award_compiles
  refine ⟨compiled, h, (resolvable_iff_declared h).1.2 ?_⟩
  have hspliced : spliced award = [("limit", []), ("badges", []), ("limit", [])] := by cbv
  rw [hspliced]
  decide

/-- A select whose raw predicate asks for a field of a number. -/
def lookUp : Operation where
  name := "lookUp"
  kind := .selectEntity
  returns := .one
  params := [Param.scalar "id" .long]
  rawPredicate := some { sql := "ID = :id.x" }

set_option maxRecDepth 4000 in
theorem lookUp_not_resolvable : ∃ compiled, Operation.compile .postgres badges lookUp = .ok compiled ∧
    ∃ b ∈ compiled.bindings, ¬Resolvable badges lookUp compiled.prelude b.value := by
  have hbindings : (Operation.compile .postgres badges lookUp).toOption.map CompiledOperation.bindings =
      some [⟨.param "id", some "ID", .plain⟩, ⟨.field "id" "x", none, .plain⟩] := by cbv
  obtain ⟨compiled, h, hlist⟩ := exists_ok_of_toOption hbindings
  refine ⟨compiled, h, ⟨.field "id" "x", none, .plain⟩, by simp [hlist], ?_⟩
  have hundeclared : ¬Declares badges lookUp ("id", ["x"]) := by decide
  have hvalue : (rawBound ("id", ["x"])).1 = .field "id" "x" := by simp [rawBound]
  rwa [resolvable_of_parameter? rfl, ← hvalue, supplied_rawBound]

end EntitySql.Query
