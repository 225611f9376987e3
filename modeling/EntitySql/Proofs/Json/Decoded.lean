import EntitySql.Proofs.Json.Written
import EntitySql.Proofs.Success

/-! Decoding what was encoded. The fields of a record read their own members only, so a record is decoded field by
field, whatever is left out: an absent option and an empty list are the values that a missing member stands for. -/
namespace EntitySql.Json
variable {α β : Type} {depth : Nat} {decode : Decoder α} {x : Json} {a : α}

/-- A value of which a text keeps all, and which decodes into `a`. -/
structure Denotes (depth : Nat) (decode : Decoder α) (x : Json) (a : α) : Prop where
  exact : Exact depth x
  decodes : decode x = .ok a

theorem denotes_string (s : String) : Denotes depth string (.str s) s :=
  ⟨.str s, rfl⟩

theorem denotes_boolean (b : Bool) : Denotes depth boolean (.bool b) b :=
  ⟨.bool b, rfl⟩

theorem natural_toNat {expected : String} {n bound : Nat} (hn : n < bound) :
    natural expected bound (.int n) = .ok n := by
  simp [natural, hn]

theorem fitsWord_of_lt {n : Nat} (hn : n < UInt64.size) : FitsWord n :=
  ⟨by omega, Int.ofNat_lt.2 hn⟩

theorem denotes_word8 (n : UInt8) : Denotes depth word8 (.int n.toNat) n := by
  have hn : n.toNat < UInt64.size := n.toNat_lt.trans (by norm_num [UInt64.size])
  refine ⟨.int (fitsWord_of_lt hn), ?_⟩
  rw [word8, natural_toNat n.toNat_lt_size, Except.map, UInt8.ofNat_toNat]

theorem denotes_word32 (n : UInt32) : Denotes depth word32 (.int n.toNat) n := by
  have hn : n.toNat < UInt64.size := n.toNat_lt.trans (by norm_num [UInt64.size])
  refine ⟨.int (fitsWord_of_lt hn), ?_⟩
  rw [word32, natural_toNat n.toNat_lt_size, Except.map, UInt32.ofNat_toNat]

theorem denotes_word64 (n : UInt64) : Denotes depth word64 (.int n.toNat) n := by
  refine ⟨.int (fitsWord_of_lt n.toNat_lt_size), ?_⟩
  rw [word64, natural_toNat n.toNat_lt_size, Except.map, UInt64.ofNat_toNat]

/-- A list denotes, item by item, what its items denote. -/
theorem denotes_map {f : β → Json} {g : β → α} {bs : List β} (h : ∀ b ∈ bs, Denotes depth decode (f b) (g b)) :
    Denotes (depth + 1) (list decode) (.arr (bs.map f)) (bs.map g) := by
  refine ⟨.arr ?_, ?_⟩
  · intro x hx
    obtain ⟨b, hb, rfl⟩ := List.mem_map.1 hx
    exact (h b hb).exact
  · rw [list]
    induction bs with
    | nil => rfl
    | cons b bs ih =>
      obtain ⟨hb, hbs⟩ := List.forall_mem_cons.1 h
      rw [List.map_cons, List.map_cons, decodeItems, hb.decodes, bind_eq_ok]
      exact ⟨g b, rfl, bind_eq_ok.2 ⟨bs.map g, ih hbs, rfl⟩⟩

theorem denotes_list {encode : α → Json} {as : List α} (h : ∀ a ∈ as, Denotes depth decode (encode a) a) :
    Denotes (depth + 1) (list decode) (.arr (as.map encode)) as := by
  have hmap := denotes_map (g := id) h
  rwa [List.map_id] at hmap

theorem denotes_variant {label : α → String} {all : List α} (h : byName label all (label a) = .ok a) :
    Denotes depth (variant label all) (.str (label a)) a :=
  ⟨.str _, h⟩

theorem denotes_bufferedVariant {label : α → String} {all : List α} (h : byName label all (label a) = .ok a) :
    Denotes depth (bufferedVariant label all) (.str (label a)) a :=
  ⟨.str _, h⟩

namespace Fields
variable {f : Fields (α → β)} {fields : Fields α} {ms ms' : List (String × Json)} {all : Members} {name : String}
  {absent : Option α}

/-- The members with the names of some fields, in their order. -/
def named (names : List String) (all : Members) : List (String × Json) :=
  (all.map Prod.fst).filter (·.1 ∈ names)

/-- Members of which a text keeps all, and from which the fields read `a`, whatever other members stand around them. -/
structure Denote (depth : Nat) (fields : Fields α) (ms : List (String × Json)) (a : α) : Prop where
  exact : ∀ m ∈ ms, Exact depth m.2
  known : ∀ m ∈ ms, m.1 ∈ fields.names
  reads : ∀ size all, named fields.names all = ms → fields.byMembers size all = .ok a

theorem denote_pure (a : α) : Denote depth (pure a) [] a where
  exact _ hm := nomatch hm
  known _ hm := nomatch hm
  reads _ _ _ := rfl

theorem named_of_subset {names more : List String} (h : ∀ name ∈ names, name ∈ more) (all : Members) :
    named names all = (named more all).filter (·.1 ∈ names) := by
  rw [named, named, List.filter_filter]
  congr 1
  funext m
  by_cases hm : m.1 ∈ names
  · simp [hm, h m.1 hm]
  · simp [hm]

/-- Further fields, which do not share names with those before, read further members. -/
theorem Denote.seq {g : α → β} (hf : Denote depth f ms g) (hx : Denote depth fields ms' a)
    (hnames : ∀ name ∈ f.names, name ∉ fields.names) : Denote depth (f <*> fields) (ms ++ ms') (g a) where
  exact := List.forall_mem_append.2 ⟨hf.exact, hx.exact⟩
  known := by
    intro m hm
    change m.1 ∈ f.names ++ fields.names
    obtain hm | hm := List.mem_append.1 hm
    · exact List.mem_append_left _ (hf.known m hm)
    · exact List.mem_append_right _ (hx.known m hm)
  reads := by
    intro size all hall
    change named (f.names ++ fields.names) all = ms ++ ms' at hall
    have hfirst : named f.names all = ms := by
      have hother : ms'.filter (·.1 ∈ f.names) = [] :=
        List.filter_eq_nil_iff.2 (by simpa using fun m hm hmem => hnames _ hmem (hx.known m hm))
      rw [named_of_subset (fun _ => List.mem_append_left fields.names) all, hall, List.filter_append, hother,
        List.filter_eq_self.2 (by simpa using hf.known), List.append_nil]
    have hsecond : named fields.names all = ms' := by
      have hother : ms.filter (·.1 ∈ fields.names) = [] :=
        List.filter_eq_nil_iff.2 (by simpa using fun m hm => hnames _ (hf.known m hm))
      rw [named_of_subset (fun _ => List.mem_append_right f.names) all, hall, List.filter_append, hother,
        List.filter_eq_self.2 (by simpa using hx.known), List.nil_append]
    change (f.apply fields).byMembers size all = .ok (g a)
    rw [apply]
    simp only [hf.reads size all hfirst, hx.reads size all hsecond]

theorem Denote.map (g : α → β) (hx : Denote depth fields ms a) : Denote depth (g <$> fields) ms (g a) :=
  (denote_pure g).seq hx fun _ hmem => nomatch hmem

theorem map_filter_name (h : named [name] all = ms) : (all.filter (·.1.1 == name)).map Prod.fst = ms := by
  rw [← h, named, List.filter_map]
  congr 2
  funext m
  simp only [Function.comp_apply, List.mem_singleton]
  rfl

theorem denote_field (h : Denotes depth decode x a) : Denote depth (field name absent decode) [(name, x)] a where
  exact := List.forall_mem_singleton.2 h.exact
  known := List.forall_mem_singleton.2 (List.mem_singleton_self name)
  reads := by
    intro size all hall
    obtain ⟨⟨m, i⟩, hone, hm⟩ := List.map_eq_singleton_iff.1 (map_filter_name hall)
    rw [field]
    simp only [hone]
    obtain rfl : m = (name, x) := hm
    simp only [h.decodes]

/-- A field that is left out has the value that it stands for. -/
theorem denote_absent (name : String) (a : α) (decode : Decoder α) : Denote depth (defaulted name a decode) [] a where
  exact _ hm := nomatch hm
  known _ hm := nomatch hm
  reads := by
    intro size all hall
    have hnone : all.filter (·.1.1 == name) = [] := List.map_eq_nil_iff.1 (map_filter_name hall)
    rw [defaulted, field]
    simp only [hnone]

theorem denote_required (name : String) (h : Denotes depth decode x a) :
    Denote depth (required name decode) [(name, x)] a :=
  denote_field h

theorem denote_defaulted (name : String) (absent : α) (h : Denotes depth decode x a) :
    Denote depth (defaulted name absent decode) [(name, x)] a :=
  denote_field h

theorem denote_omissible (name : String) (encode : α → Json) (v : Option α) (hnull : ∀ a, encode a ≠ .null)
    (h : ∀ a, Denotes depth decode (encode a) a) :
    Denote depth (omissible name decode) (member? name (v.map encode)) v := by
  cases v with
  | none => exact denote_absent name none _
  | some a =>
    refine denote_field ⟨(h a).exact, ?_⟩
    split
    · next heq => exact absurd heq (hnull a)
    · rw [(h a).decodes]
      rfl

theorem denote_list (name : String) (encode : α → Json) (as : List α)
    (h : ∀ a ∈ as, Denotes depth decode (encode a) a) :
    Denote (depth + 1) (defaulted name [] (list decode)) (members? name (as.map encode)) as := by
  cases as with
  | nil => exact denote_absent name [] _
  | cons a as => exact denote_field (denotes_list h)

theorem Denote.ofMembers (h : Denote depth fields ms a) : fields.ofMembers ms = .ok a := by
  have hall : named fields.names ms.zipIdx = ms := by
    rw [named, List.zipIdx_map_fst]
    exact List.filter_eq_self.2 (by simpa using h.known)
  have hknown : firstBroken fields.names ms.zipIdx = none := by
    rw [firstBroken, Option.map_eq_none_iff, List.find?_eq_none]
    intro m hm
    have hname := h.known m.1 (List.fst_mem_of_mem_zipIdx hm)
    simp [hname]
  rw [Fields.ofMembers, h.reads _ _ hall, hknown]

end Fields

theorem Fields.Denote.record {fields : Fields α} {ms : List (String × Json)} {expected : String}
    (h : fields.Denote depth ms a) : Denotes (depth + 1) (record expected fields) (.obj ms) a :=
  ⟨.obj h.exact, h.ofMembers⟩

theorem Fields.Denote.bufferedRecord {fields : Fields α} {ms : List (String × Json)} {expected : String}
    (h : fields.Denote depth ms a) : Denotes (depth + 1) (bufferedRecord expected fields) (.obj ms) a :=
  ⟨.obj h.exact, h.ofMembers⟩

theorem areWhole_of_forall {xs : List Json} (h : ∀ x ∈ xs, x.isWhole) : areWhole xs := by
  induction xs with
  | nil => rfl
  | cons x xs ih =>
    obtain ⟨hx, hxs⟩ := List.forall_mem_cons.1 h
    rw [areWhole, hx, ih hxs]
    rfl

theorem membersWhole_of_forall {ms : List (String × Json)} (h : ∀ m ∈ ms, m.2.isWhole) : membersWhole ms := by
  induction ms with
  | nil => rfl
  | cons m ms ih =>
    obtain ⟨hm, hms⟩ := List.forall_mem_cons.1 h
    rw [membersWhole, hm, ih hms]
    rfl

theorem Exact.isWhole (h : Exact depth x) : x.isWhole := by
  induction h with
  | null => rfl
  | bool b => rfl
  | int h => rfl
  | str s => rfl
  | arr h ih =>
    rw [Json.isWhole]
    exact areWhole_of_forall ih
  | obj h ih =>
    rw [Json.isWhole]
    exact membersWhole_of_forall ih

theorem splitTag_other {τ : Type} {key : String} {tag : Decoder τ} {ms : List (String × Json)}
    (hkey : ∀ m ∈ ms, m.1 ≠ key) (hms : ∀ m ∈ ms, Exact depth m.2) : splitTag key tag ms = .ok (none, ms) := by
  induction ms with
  | nil => rfl
  | cons m ms ih =>
    obtain ⟨hname, hkey⟩ := List.forall_mem_cons.1 hkey
    obtain ⟨hm, hms⟩ := List.forall_mem_cons.1 hms
    rw [splitTag, if_neg hname, if_pos hm.isWhole, ih hkey hms]
    rfl

/-- A value with a tag denotes what its other members denote as the content of this tag. -/
theorem denotes_tagged {τ : Type} {key name expected : String} {tag : Decoder τ} {t : τ} {content : τ → Decoder α}
    {ms : List (String × Json)} (htag : tag (.str name) = .ok t) (hkey : ∀ m ∈ ms, m.1 ≠ key)
    (h : Denotes (depth + 1) (content t) (.obj ms) a) :
    Denotes (depth + 1) (taggedValue key expected tag content) (tagged key name ms) a := by
  have hms : ∀ m ∈ ms, Exact depth m.2 := by
    cases h.exact with
    | obj hms => exact hms
  refine ⟨.obj (List.forall_mem_cons.2 ⟨.str name, hms⟩), ?_⟩
  have hsplit : splitTag key tag ((key, .str name) :: ms) = .ok (some t, ms) := by
    rw [splitTag, if_pos rfl, htag, bind_eq_ok]
    refine ⟨t, rfl, ?_⟩
    rw [splitTag_other hkey hms]
    rfl
  rw [tagged, taggedValue, hsplit]
  exact h.decodes

end EntitySql.Json
