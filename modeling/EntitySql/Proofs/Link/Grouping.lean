import EntitySql.Link.ForeignKey
import Mathlib

/-! How the references of a table are shared out among its foreign keys. Each reference is in one key. The references to
one target are together, in their order, but for those whose target column another reference has as well, which stand
alone. A single pass over the references makes up the same keys. -/
namespace EntitySql

/-- The column of a reference and the column it leads to. -/
def Reference.pair {n : ℕ} (r : Reference n) : String × String :=
  (r.column, r.targetColumn)

namespace ForeignKey
variable {n : ℕ} {refs done : List (Reference n)} {r o : Reference n} {apart : Reference n → Bool}

/-- The references that share a key with `r`, if those that stand `apart` have keys of their own. A pass knows from the
outset which references these are, though it has come to some of the references only. -/
def companionsIn (apart : Reference n → Bool) (refs : List (Reference n)) (r : Reference n) : List (Reference n) :=
  if apart r then [r] else refs.filter fun o => o.target = r.target && !apart o

def leadsIn (apart : Reference n → Bool) (refs : List (Reference n)) (r : Reference n) : Bool :=
  (companionsIn apart refs r).head?.map (·.field) == some r.field

/-- The references in groups, one for each key, in the order of their first references. -/
def groupsIn (apart : Reference n → Bool) (refs : List (Reference n)) : List (List (Reference n)) :=
  (refs.filter (leadsIn apart refs)).map (companionsIn apart refs)

theorem companionsIn_of_apart (h : apart r = true) : companionsIn apart refs r = [r] := by
  rw [companionsIn, if_pos h]

theorem mem_companionsIn (h : apart r = false) :
    o ∈ companionsIn apart refs r ↔ o ∈ refs ∧ o.target = r.target ∧ apart o = false := by
  simp [companionsIn, h]

theorem self_mem_companionsIn (hr : r ∈ refs) : r ∈ companionsIn apart refs r := by
  cases h : apart r with
  | true => simp [companionsIn_of_apart h]
  | false => exact (mem_companionsIn h).2 ⟨hr, rfl, h⟩

theorem exists_cons_companionsIn (apart : Reference n → Bool) (hr : r ∈ refs) :
    ∃ first rest, companionsIn apart refs r = first :: rest :=
  List.exists_cons_of_ne_nil (List.ne_nil_of_mem (self_mem_companionsIn hr))

/-- A group is the group of each of its references. -/
theorem companionsIn_eq_of_mem (ho : o ∈ companionsIn apart refs r) :
    companionsIn apart refs o = companionsIn apart refs r := by
  cases h : apart r with
  | true =>
    rw [companionsIn_of_apart h, List.mem_singleton] at ho
    rw [ho]
  | false =>
    obtain ⟨-, htarget, hapart⟩ := (mem_companionsIn h).1 ho
    simp [companionsIn, h, hapart, htarget]

theorem companionsIn_sublist (hr : r ∈ refs) : (companionsIn apart refs r).Sublist refs := by
  unfold companionsIn
  split
  · exact List.singleton_sublist.2 hr
  · exact List.filter_sublist

theorem target_of_mem_companionsIn (ho : o ∈ companionsIn apart refs r) : o.target = r.target := by
  cases h : apart r with
  | true =>
    rw [companionsIn_of_apart h, List.mem_singleton] at ho
    rw [ho]
  | false => exact ((mem_companionsIn h).1 ho).2.1

section
variable (hfields : (refs.map (·.field)).Nodup)
include hfields

/-- A reference leads if it is the first one of its group. -/
theorem leadsIn_iff (hr : r ∈ refs) : leadsIn apart refs r = true ↔ (companionsIn apart refs r).head? = some r := by
  rw [leadsIn, beq_iff_eq, Option.map_eq_some_iff]
  constructor
  · rintro ⟨first, hfirst, hfield⟩
    have hmem := (companionsIn_sublist hr).subset (List.mem_of_head? hfirst)
    rwa [List.inj_on_of_nodup_map hfields hmem hr hfield] at hfirst
  · exact fun h => ⟨r, h, rfl⟩

/-- Of each group one reference leads. -/
theorem eq_of_companionsIn_eq (hr : r ∈ refs.filter (leadsIn apart refs)) (ho : o ∈ refs.filter (leadsIn apart refs))
    (hsame : companionsIn apart refs r = companionsIn apart refs o) : r = o := by
  obtain ⟨hr, hrleads⟩ := List.mem_filter.1 hr
  obtain ⟨ho, holeads⟩ := List.mem_filter.1 ho
  have hfirst := (leadsIn_iff hfields hr).1 hrleads
  rw [hsame, (leadsIn_iff hfields ho).1 holeads] at hfirst
  exact (Option.some.inj hfirst).symm

theorem companionsIn_mem_groupsIn (hr : r ∈ refs) : companionsIn apart refs r ∈ groupsIn apart refs := by
  obtain ⟨first, rest, hgroup⟩ := exists_cons_companionsIn apart hr
  have hfirst : first ∈ companionsIn apart refs r := hgroup ▸ List.mem_cons_self
  have hsame := companionsIn_eq_of_mem hfirst
  have hmem := (companionsIn_sublist hr).subset hfirst
  refine List.mem_map.2 ⟨first, List.mem_filter.2 ⟨hmem, (leadsIn_iff hfields hmem).2 ?_⟩, hsame⟩
  rw [hsame, hgroup]
  rfl

theorem perm_flatten_groupsIn : (groupsIn apart refs).flatten.Perm refs := by
  have hrefs : refs.Nodup := List.Nodup.of_map _ hfields
  have hsublist : ∀ group ∈ groupsIn apart refs, group.Sublist refs := by
    intro group hgroup
    obtain ⟨first, hfirst, rfl⟩ := List.mem_map.1 hgroup
    exact companionsIn_sublist (List.mem_filter.1 hfirst).1
  refine (List.perm_ext_iff_of_nodup (List.nodup_flatten.2 ⟨?_, ?_⟩) hrefs).2 fun r => ⟨?_, ?_⟩
  · exact fun group hgroup => hrefs.sublist (hsublist group hgroup)
  · -- Groups that have a reference in common are the same.
    refine List.pairwise_map.2 ((hrefs.filter _).imp_of_mem fun {a b} ha hb hne o hoa hob => hne ?_)
    exact eq_of_companionsIn_eq hfields ha hb ((companionsIn_eq_of_mem hoa).symm.trans (companionsIn_eq_of_mem hob))
  · intro hr
    obtain ⟨group, hgroup, hr⟩ := List.mem_flatten.1 hr
    exact (hsublist group hgroup).subset hr
  · exact fun hr => List.mem_flatten.2 ⟨_, companionsIn_mem_groupsIn hfields hr, self_mem_companionsIn hr⟩

theorem filterMap_head?_groupsIn : (groupsIn apart refs).filterMap List.head? = refs.filter (leadsIn apart refs) := by
  rw [groupsIn, List.filterMap_map]
  refine (List.filterMap_congr fun r hr => ?_).trans List.filterMap_some
  obtain ⟨hmem, hleads⟩ := List.mem_filter.1 hr
  exact (leadsIn_iff hfields hmem).1 hleads

end

/-- A key that is being made up. A closed one takes no further references. -/
structure Draft (n : ℕ) where
  key : ForeignKey n
  closed : Bool

namespace Draft

def begin (apart : Bool) (r : Reference n) : Draft n :=
  ⟨⟨r.target, [r.pair]⟩, apart⟩

def extend (r : Reference n) (d : Draft n) : Draft n :=
  { d with key := { d.key with pairs := d.key.pairs ++ [r.pair] } }

def takes (apart : Bool) (r : Reference n) (d : Draft n) : Bool :=
  !apart && d.key.target = r.target && !d.closed

end Draft

/-- Adds a reference to the first key that takes it, or begins a key with it. -/
def add (apart : Bool) (r : Reference n) : List (Draft n) → List (Draft n)
  | [] => [.begin apart r]
  | d :: drafts => if d.takes apart r then d.extend r :: drafts else d :: add apart r drafts

/-- A single pass over references. -/
def pass (apart : Reference n → Bool) (refs : List (Reference n)) : List (Draft n) :=
  refs.foldl (fun drafts r => add (apart r) r drafts) []

theorem add_of_none {b : Bool} {drafts : List (Draft n)} (h : ∀ d ∈ drafts, d.takes b r = false) :
    add b r drafts = drafts ++ [.begin b r] := by
  induction drafts with
  | nil => rfl
  | cons d drafts ih =>
    obtain ⟨hd, hdrafts⟩ := List.forall_mem_cons.1 h
    rw [add, if_neg (by simp [hd]), ih hdrafts]
    rfl

theorem add_of_one {b : Bool} {os : List (Reference n)} {draft : Reference n → Draft n}
    (hsome : ∃ o ∈ os, (draft o).takes b r = true)
    (hone : os.Pairwise fun o o' => (draft o).takes b r = true → (draft o').takes b r = false) :
    add b r (os.map draft) = os.map fun o => if (draft o).takes b r then (draft o).extend r else draft o := by
  induction os with
  | nil =>
    obtain ⟨o, ho, -⟩ := hsome
    cases ho
  | cons o os ih =>
    obtain ⟨hfirst, hone⟩ := List.pairwise_cons.1 hone
    rw [List.map_cons, List.map_cons, add]
    cases htakes : (draft o).takes b r with
    | true =>
      rw [if_pos rfl, if_pos rfl]
      refine congrArg _ (List.map_congr_left fun o' ho' => ?_)
      rw [hfirst o' ho' htakes]
      rfl
    | false =>
      obtain ⟨o', ho', htakes'⟩ := hsome
      obtain rfl | ho' := List.mem_cons.1 ho'
      · rw [htakes] at htakes'
        cases htakes'
      · rw [if_neg (by decide), if_neg (by decide), ih ⟨o', ho', htakes'⟩ hone]

/-- The keys of references after a pass over them. -/
def draftIn (apart : Reference n → Bool) (refs : List (Reference n)) (r : Reference n) : Draft n :=
  ⟨⟨r.target, (companionsIn apart refs r).map Reference.pair⟩, apart r⟩

def draftsIn (apart : Reference n → Bool) (refs : List (Reference n)) : List (Draft n) :=
  (refs.filter (leadsIn apart refs)).map (draftIn apart refs)

theorem takes_draftIn {b : Bool} :
    (draftIn apart done o).takes b r = true ↔ b = false ∧ o.target = r.target ∧ apart o = false := by
  change (!b && o.target = r.target && !apart o) = true ↔ _
  simp [and_assoc]

theorem companionsIn_concat :
    companionsIn apart (done ++ [r]) o =
      companionsIn apart done o ++ if (draftIn apart done o).takes (apart r) r then [r] else [] := by
  cases ho : apart o with
  | true => simp [companionsIn, draftIn, Draft.takes, ho]
  | false =>
    have htakes : (draftIn apart done o).takes (apart r) r = true ↔ (r.target = o.target && !apart r) = true := by
      rw [takes_draftIn, Bool.and_eq_true, decide_eq_true_eq, Bool.not_eq_true']
      exact ⟨fun ⟨hr, htarget, _⟩ => ⟨htarget.symm, hr⟩, fun ⟨htarget, hr⟩ => ⟨hr, htarget.symm, ho⟩⟩
    rw [if_congr htakes rfl rfl, companionsIn, companionsIn, if_neg (by simp [ho]), if_neg (by simp [ho]),
      List.filter_append, List.filter_cons, List.filter_nil]

/-- What leads a group goes on to lead it. -/
theorem leadsIn_concat (ho : o ∈ done) : leadsIn apart (done ++ [r]) o = leadsIn apart done o := by
  obtain ⟨first, rest, hgroup⟩ := exists_cons_companionsIn apart ho
  rw [leadsIn, leadsIn, companionsIn_concat, hgroup]
  rfl

theorem draftIn_concat :
    draftIn apart (done ++ [r]) o =
      if (draftIn apart done o).takes (apart r) r then (draftIn apart done o).extend r else draftIn apart done o := by
  rw [draftIn, companionsIn_concat]
  split <;> simp [draftIn, Draft.extend]

theorem companionsIn_last : companionsIn apart (done ++ [r]) r =
    done.filter (fun o => (draftIn apart done o).takes (apart r) r) ++ [r] := by
  cases hr : apart r with
  | true =>
    have hnone : done.filter (fun o => (draftIn apart done o).takes true r) = [] :=
      List.filter_eq_nil_iff.2 fun o _ => by simp [takes_draftIn]
    rw [companionsIn_of_apart hr, hnone, List.nil_append]
  | false =>
    rw [companionsIn, if_neg (by simp [hr]), List.filter_append]
    refine congrArg₂ _ (List.filter_congr fun o _ => Bool.eq_iff_iff.2 ?_) (by simp [hr])
    rw [takes_draftIn]
    simp

/-- The last reference begins a key if none before it is the first of a key that takes it. -/
theorem leadsIn_last (hfields : ((done ++ [r]).map (·.field)).Nodup) :
    leadsIn apart (done ++ [r]) r = true ↔ ∀ o ∈ done, (draftIn apart done o).takes (apart r) r = false := by
  rw [leadsIn_iff hfields (by simp), companionsIn_last]
  simp only [← Bool.not_eq_true, ← List.filter_eq_nil_iff]
  have hsubset : done.filter (fun o => (draftIn apart done o).takes (apart r) r) ⊆ done := List.filter_subset_self _
  generalize done.filter (fun o => (draftIn apart done o).takes (apart r) r) = takers at hsubset
  cases takers with
  | nil => simp
  | cons first rest =>
    have hfirst : first ∈ done := hsubset List.mem_cons_self
    have hne : first ≠ r := by
      rintro rfl
      have hnodup := List.Nodup.of_map _ hfields
      exact (List.nodup_append.1 hnodup).2.2 first hfirst first (by simp) rfl
    simp [hne]

/-- A key that takes a reference was begun by one that does. -/
theorem exists_takes (hdone : (done.map (·.field)).Nodup) {b : Bool} (ho : o ∈ done)
    (htakes : (draftIn apart done o).takes b r = true) :
    ∃ first ∈ done.filter (leadsIn apart done), (draftIn apart done first).takes b r = true := by
  obtain ⟨hb, htarget, hapart⟩ := takes_draftIn.1 htakes
  have hgroup : companionsIn apart done o ∈ groupsIn apart done := companionsIn_mem_groupsIn hdone ho
  obtain ⟨first, hfirst, hsame⟩ := List.mem_map.1 hgroup
  have hmem : first ∈ companionsIn apart done o := hsame ▸ self_mem_companionsIn (List.mem_filter.1 hfirst).1
  obtain ⟨-, hsameTarget, hfirstApart⟩ := (mem_companionsIn hapart).1 hmem
  exact ⟨first, hfirst, takes_draftIn.2 ⟨hb, hsameTarget.trans htarget, hfirstApart⟩⟩

/-- At most one key takes a reference. -/
theorem takes_one (hdone : (done.map (·.field)).Nodup) {b : Bool} :
    (done.filter (leadsIn apart done)).Pairwise fun o o' =>
      (draftIn apart done o).takes b r = true → (draftIn apart done o').takes b r = false := by
  have hnodup := (List.Nodup.of_map _ hdone).filter (leadsIn apart done)
  refine hnodup.imp_of_mem fun {o o'} ho ho' hne htakes => ?_
  by_contra htakes'
  obtain ⟨-, htarget, hapart⟩ := takes_draftIn.1 htakes
  obtain ⟨-, htarget', hapart'⟩ := takes_draftIn.1 (Bool.eq_true_of_not_eq_false htakes')
  refine hne (eq_of_companionsIn_eq hdone ho ho' ?_)
  simp [companionsIn, hapart, hapart', htarget, htarget']

/-- One step of the pass. -/
theorem add_draftsIn (hfields : ((done ++ [r]).map (·.field)).Nodup) :
    add (apart r) r (draftsIn apart done) = draftsIn apart (done ++ [r]) := by
  have hdone : (done.map (·.field)).Nodup := hfields.sublist (by simp)
  have hleads : done.filter (leadsIn apart (done ++ [r])) = done.filter (leadsIn apart done) :=
    List.filter_congr fun o ho => leadsIn_concat ho
  have hlast : leadsIn apart (done ++ [r]) r = true ↔ ∀ o ∈ done, (draftIn apart done o).takes (apart r) r = false :=
    leadsIn_last hfields
  rw [draftsIn, draftsIn, List.filter_append, List.map_append, hleads]
  by_cases hnone : ∀ o ∈ done, (draftIn apart done o).takes (apart r) r = false
  · rw [add_of_none fun d hd => ?_, List.filter_cons, if_pos (hlast.2 hnone)]
    · refine congrArg₂ _ (List.map_congr_left fun o ho => ?_) ?_
      · rw [draftIn_concat, hnone o (List.mem_filter.1 ho).1]
        rfl
      · have halone : done.filter (fun o => (draftIn apart done o).takes (apart r) r) = [] :=
          List.filter_eq_nil_iff.2 fun o ho => by simp [hnone o ho]
        rw [List.filter_nil, List.map_singleton, draftIn, companionsIn_last, halone]
        rfl
    · obtain ⟨o, ho, rfl⟩ := List.mem_map.1 hd
      exact hnone o (List.mem_filter.1 ho).1
  · rw [List.filter_cons, if_neg (mt hlast.1 hnone), List.filter_nil, List.map_nil, List.append_nil, add_of_one]
    · exact List.map_congr_left fun o _ => draftIn_concat.symm
    · obtain ⟨o, ho, htakes⟩ : ∃ o ∈ done, (draftIn apart done o).takes (apart r) r = true := by simpa using hnone
      exact exists_takes hdone ho htakes
    · exact takes_one hdone

theorem pass_eq (hfields : (refs.map (·.field)).Nodup) : pass apart refs = draftsIn apart refs := by
  induction refs using List.reverseRecOn with
  | nil => rfl
  | append_singleton done r ih =>
    rw [pass, List.foldl_concat]
    exact (congrArg _ (ih (hfields.sublist (by simp)))).trans (add_draftsIn hfields)

/-- Another reference leads to the same column. -/
def Shared (refs : List (Reference n)) (r : Reference n) : Prop :=
  ∃ o ∈ refs, o ≠ r ∧ o.target = r.target ∧ o.targetColumn = r.targetColumn

/-- References shared out in groups: each is in one of them and keeps its place there, and those of one group lead to
different columns. A reference whose target column is shared stands alone, the other ones to its target are together. -/
structure Grouped (refs : List (Reference n)) (groups : List (List (Reference n))) : Prop where
  each_once : groups.flatten.Perm refs
  nonempty : ∀ group ∈ groups, group ≠ []
  in_order : ∀ group ∈ groups, group.Sublist refs
  nodup_targets : ∀ group ∈ groups, (group.map (·.targetColumn)).Nodup
  alone : ∀ r ∈ refs, Shared refs r → [r] ∈ groups
  together : ∀ r ∈ refs, ¬Shared refs r →
    ∃ group ∈ groups, ∀ o, o ∈ group ↔ o ∈ refs ∧ o.target = r.target ∧ ¬Shared refs o
  by_first : (groups.filterMap List.head?).Sublist refs

section
variable (hfields : (refs.map (·.field)).Nodup)
include hfields

theorem collides_iff (hr : r ∈ refs) : collides refs r = true ↔ Shared refs r := by
  simp only [collides, Shared, List.any_eq_true, Bool.and_eq_true, decide_eq_true_eq]
  refine exists_congr fun o => and_congr_right fun ho => ?_
  have hsame : o.field = r.field ↔ o = r :=
    ⟨fun heq => List.inj_on_of_nodup_map hfields ho hr heq, fun heq => congrArg _ heq⟩
  rw [and_assoc, ne_eq, hsame]

theorem collides_eq_false_iff (hr : r ∈ refs) : collides refs r = false ↔ ¬Shared refs r := by
  rw [← collides_iff hfields hr, Bool.not_eq_true]

theorem nodup_targetColumns (hr : r ∈ refs) : ((companionsIn (collides refs) refs r).map (·.targetColumn)).Nodup := by
  cases h : collides refs r with
  | true =>
    rw [companionsIn_of_apart h]
    exact List.nodup_singleton _
  | false =>
    refine ((List.Nodup.of_map _ hfields).sublist (companionsIn_sublist hr)).map_on fun a ha b hb hcolumn => ?_
    obtain ⟨ha, hatarget, -⟩ := (mem_companionsIn h).1 ha
    obtain ⟨hb, hbtarget, hbapart⟩ := (mem_companionsIn h).1 hb
    by_contra hne
    exact (collides_eq_false_iff hfields hb).1 hbapart ⟨a, ha, hne, hatarget.trans hbtarget.symm, hcolumn⟩

theorem grouped_groupsIn : Grouped refs (groupsIn (collides refs) refs) := by
  have hgroups : ∀ group ∈ groupsIn (collides refs) refs, ∃ r ∈ refs, companionsIn (collides refs) refs r = group := by
    intro group hgroup
    obtain ⟨r, hr, rfl⟩ := List.mem_map.1 hgroup
    exact ⟨r, (List.mem_filter.1 hr).1, rfl⟩
  constructor
  case each_once => exact perm_flatten_groupsIn hfields
  case nonempty =>
    intro group hgroup
    obtain ⟨r, hr, rfl⟩ := hgroups group hgroup
    exact List.ne_nil_of_mem (self_mem_companionsIn hr)
  case in_order =>
    intro group hgroup
    obtain ⟨r, hr, rfl⟩ := hgroups group hgroup
    exact companionsIn_sublist hr
  case nodup_targets =>
    intro group hgroup
    obtain ⟨r, hr, rfl⟩ := hgroups group hgroup
    exact nodup_targetColumns hfields hr
  case alone =>
    intro r hr hshared
    have halone : companionsIn (collides refs) refs r = [r] :=
      companionsIn_of_apart ((collides_iff hfields hr).2 hshared)
    rw [← halone]
    exact companionsIn_mem_groupsIn hfields hr
  case together =>
    intro r hr hown
    refine ⟨_, companionsIn_mem_groupsIn hfields hr, fun o => ?_⟩
    rw [mem_companionsIn ((collides_eq_false_iff hfields hr).2 hown)]
    exact and_congr_right fun ho => and_congr_right fun _ => collides_eq_false_iff hfields ho
  case by_first =>
    rw [filterMap_head?_groupsIn hfields]
    exact List.filter_sublist

/-- The foreign keys of a table are groups of its references, in the order of their first ones; and they are the keys
that a single pass over the references makes up. -/
theorem references_grouped :
    (∃ groups, Grouped refs groups ∧ List.Forall₂
      (fun key group => (∀ r ∈ group, r.target = key.target) ∧ key.pairs = group.map Reference.pair)
      (ofReferences refs) groups) ∧
    ofReferences refs = (pass (collides refs) refs).map (·.key) := by
  refine ⟨⟨_, grouped_groupsIn hfields, ?_⟩, ?_⟩
  · refine List.forall₂_map_left_iff.2 (List.forall₂_map_right_iff.2 (List.forall₂_same.2 fun r _ => ⟨?_, rfl⟩))
    exact fun o => target_of_mem_companionsIn
  · rw [pass_eq hfields, draftsIn, List.map_map]
    rfl

end

/-- References of deliveries to places and to persons, interleaved: sender and receiver lead to the same column. -/
def deliveryReferences : List (Reference 2) := [
  ⟨"street", "STREET", 0, "street", "STREET"⟩,
  ⟨"sender", "SENDER", 1, "id", "ID"⟩,
  ⟨"house", "HOUSE", 0, "house", "HOUSE"⟩,
  ⟨"receiver", "RECEIVER", 1, "id", "ID"⟩,
  ⟨"carrier", "CARRIER", 1, "badge", "BADGE"⟩]

theorem deliveryReferences_grouped : (deliveryReferences.map (·.field)).Nodup ∧
    ofReferences deliveryReferences =
      [⟨0, [("STREET", "STREET"), ("HOUSE", "HOUSE")]⟩, ⟨1, [("SENDER", "ID")]⟩, ⟨1, [("RECEIVER", "ID")]⟩,
        ⟨1, [("CARRIER", "BADGE")]⟩] ∧
    ∃ groups, Grouped deliveryReferences groups ∧ List.Forall₂
      (fun key group => (∀ r ∈ group, r.target = key.target) ∧ key.pairs = group.map Reference.pair)
      (ofReferences deliveryReferences) groups :=
  have hfields : (deliveryReferences.map (·.field)).Nodup := by decide
  ⟨hfields, by decide, (references_grouped hfields).1⟩

end ForeignKey

end EntitySql
