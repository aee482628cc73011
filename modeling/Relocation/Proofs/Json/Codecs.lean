import Mathlib.Data.List.Nodup
import Relocation.Json.Encode
import Relocation.Proofs.Json.MergePatch

/-!
Typed values come back out of what they are written as. An encoded value decodes to the typed one
both as it stands and in its tidy form (`Decodes`), so it does out of its text (`Decodes.ofText`)
and out of a tree (`Decodes.ofValue`). For a record it is enough that each of its fields holds its
part (`decodes_object`).
-/

set_option autoImplicit false

namespace Relocation.Json

variable {α : Type}

/-- Whether a value decodes to something, both as it stands and in its tidy form. -/
structure Decodes (d : Decoder α) (a : α) (v : Value) : Prop where
  plain : d (.ofValue v) = .ok a
  tidy : d (.ofValue v.tidy) = .ok a

section Routes

variable {d : Decoder α} {a : α} {v : Value}

theorem ofText_text (d : Decoder α) (h : v.Fits maxDepth) : d.ofText v.text = d (.ofValue v) := by
  rw [Decoder.ofText, read_text h]
  dsimp only
  cases d (.ofValue v) <;> rfl

theorem Decodes.ofText (h : Decodes d a v) (hfits : v.Fits maxDepth) : d.ofText v.text = .ok a :=
  (ofText_text d hfits).trans h.plain

theorem Decodes.ofValue (h : Decodes d a v) : d.ofValue v = .ok a := h.tidy

end Routes

section Leaves

variable {d : Decoder α} {a : α} {v : Value}

theorem decodes_string (s : String) : Decodes Decoder.string s (.string s) := ⟨rfl, rfl⟩

theorem decodes_bool (b : Bool) : Decodes Decoder.bool b (.bool b) := ⟨rfl, rfl⟩

theorem decodes_int32 (n : Int32) : Decodes Decoder.int32 n (.int32 n) := by
  have hrange : -0x80000000 ≤ n.toInt ∧ n.toInt < 0x80000000 := ⟨n.le_toInt, n.toInt_lt⟩
  have hdecode : Decoder.int32 (.ofValue (.int32 n)) = .ok n :=
    (if_pos hrange).trans (congrArg Except.ok (Int32.ofInt_toInt n))
  exact ⟨hdecode, hdecode⟩

theorem decodes_int64 (n : Int64) : Decodes Decoder.int64 n (.int64 n) := by
  have hrange : n.toInt < 0x8000000000000000 := n.toInt_lt
  have hdecode : Decoder.int64 (.ofValue (.int64 n)) = .ok n :=
    (if_pos hrange).trans (congrArg Except.ok (Int64.ofInt_toInt n))
  exact ⟨hdecode, hdecode⟩

private theorem optional_of_present (h : d (.ofValue v) = .ok a) (hv : v.isNull = false) :
    d.optional (.ofValue v) = .ok (some a) := by
  cases v with
  | null => cases hv
  | _ =>
    rw [Source.ofValue] at h ⊢
    simp [Decoder.optional, h, Except.map]

theorem Value.isNull_tidy (v : Value) : v.tidy.isNull = v.isNull := by
  cases v <;> simp [Value.tidy, Value.isNull]

theorem Decodes.optional (h : Decodes d a v) (hv : v.isNull = false) :
    Decodes d.optional (some a) v :=
  ⟨optional_of_present h.plain hv, optional_of_present h.tidy (v.isNull_tidy.trans hv)⟩

theorem decodes_none (d : Decoder α) : Decodes d.optional none .null := ⟨rfl, rfl⟩

private theorem orDefault_of_present [Inhabited α] (h : d (.ofValue v) = .ok a)
    (hv : v.isNull = false) : d.orDefault (.ofValue v) = .ok a := by
  cases v with
  | null => cases hv
  | _ =>
    rw [Source.ofValue] at h ⊢
    simpa [Decoder.orDefault] using h

theorem Decodes.orDefault [Inhabited α] (h : Decodes d a v) (hv : v.isNull = false) :
    Decodes d.orDefault a v :=
  ⟨orDefault_of_present h.plain hv, orDefault_of_present h.tidy (v.isNull_tidy.trans hv)⟩

theorem decodes_any (h : v.tidy = v) : Decodes Decoder.any v v := by
  have hplain : Decoder.any (.ofValue v) = .ok v := by
    rw [Decoder.any, Source.value_ofValue, liftFault, Except.mapError, Except.map, h]
  exact ⟨hplain, (congrArg (fun w => Decoder.any (.ofValue w)) h).trans hplain⟩

end Leaves

section Containers

variable {d : Decoder α} {encode : α → Value} {items : List α}

private theorem items_ofItems {values : List Value}
    (h : List.Forall₂ (fun v a => d (.ofValue v) = .ok a) values items) :
    Decoder.items d (Source.ofItems values) = .ok items := by
  induction h with
  | nil => rfl
  | cons hfirst _ ih =>
    rw [Source.ofItems, Decoder.items, hfirst, ih]
    rfl

private theorem list_ofItems {values : List Value}
    (h : List.Forall₂ (fun v a => d (.ofValue v) = .ok a) values items) :
    Decoder.list d (.ofValue (.array values)) = .ok items := by
  rw [Source.ofValue, Decoder.list, items_ofItems h]
  rfl

private theorem tidyItems_eq_map (values : List Value) :
    Value.tidyItems values = values.map Value.tidy := by
  induction values with
  | nil => rw [Value.tidyItems, List.map_nil]
  | cons v values ih => rw [Value.tidyItems, ih, List.map_cons]

theorem decodes_list (h : ∀ a ∈ items, Decodes d a (encode a)) :
    Decodes (Decoder.list d) items (listValue encode items) where
  plain := by
    refine list_ofItems (List.forall₂_map_left_iff.2 (List.forall₂_same.2 fun a ha => ?_))
    exact (h a ha).plain
  tidy := by
    rw [listValue, Value.tidy, tidyItems_eq_map]
    refine list_ofItems (List.forall₂_map_left_iff.2 (List.forall₂_map_left_iff.2
      (List.forall₂_same.2 fun a ha => ?_)))
    exact (h a ha).tidy

private theorem put_last {κ β : Type} [Ord κ] [Std.OrientedOrd κ] {before : List (κ × β)} {k : κ}
    {b : β} (h : ∀ e ∈ before, compare e.1 k = .lt) :
    Table.put k b before = before ++ [(k, b)] := by
  induction before with
  | nil => rfl
  | cons e before ih =>
    have hfirst : compare k e.1 = .gt := Std.OrientedCmp.gt_of_lt (h e List.mem_cons_self)
    have hput : Table.put k b (e :: before) = e :: Table.put k b before := by
      rw [Table.put, hfirst]
    rw [hput, ih fun e' he' => h e' (List.mem_cons_of_mem _ he'), List.cons_append]

private theorem insert_ascending {t : Table String α} {entries : List (String × α)}
    (h : Ascending (t.entries ++ entries)) :
    (entries.foldl (fun t e => t.insert e.1 e.2) t).entries = t.entries ++ entries := by
  induction entries generalizing t with
  | nil => exact (List.append_nil _).symm
  | cons e entries ih =>
    have hlast : (t.insert e.1 e.2).entries = t.entries ++ [e] := by
      refine put_last fun e' he' => ?_
      exact (List.pairwise_append.1 h).2.2 e' he' e List.mem_cons_self
    rw [List.foldl_cons, ih (by rw [hlast, List.append_assoc]; exact h), hlast, List.append_assoc]
    rfl

private theorem tidyMembers_ascending {before ms : Parts} (h : Ascending (before ++ ms)) :
    Value.tidyMembers before ms = before ++ ms.map fun e => (e.1, e.2.tidy) := by
  induction ms generalizing before with
  | nil => rw [Value.tidyMembers, List.map_nil, List.append_nil]
  | cons e ms ih =>
    obtain ⟨k, v⟩ := e
    have hbefore := List.pairwise_append.1 h
    have hput : Table.put k v.tidy before = before ++ [(k, v.tidy)] :=
      put_last fun e' he' => hbefore.2.2 e' he' (k, v) List.mem_cons_self
    have hrest := List.pairwise_cons.1 hbefore.2.1
    rw [Value.tidyMembers, hput, ih, List.map_cons, List.append_assoc]
    · rfl
    · refine List.pairwise_append.2 ⟨List.pairwise_append.2 ⟨hbefore.1, List.pairwise_singleton _ _,
        fun e' he' f hf => ?_⟩, hrest.2, fun e' he' f hf => ?_⟩
      · rw [List.mem_singleton.1 hf]
        exact hbefore.2.2 e' he' (k, v) List.mem_cons_self
      · rcases List.mem_append.1 he' with he' | he'
        · exact hbefore.2.2 e' he' f (List.mem_cons_of_mem _ hf)
        · rw [List.mem_singleton.1 he']
          exact hrest.1 f hf

private theorem entries_ofMembers {before : Table String α} {ms : Parts}
    {entries : List (String × α)}
    (h : List.Forall₂ (fun e e' => e.1 = e'.1 ∧ d (.ofValue e.2) = .ok e'.2) ms entries) :
    Decoder.entries d before (Source.ofMembers ms) =
      .ok (entries.foldl (fun t e => t.insert e.1 e.2) before) := by
  induction h generalizing before with
  | nil => rfl
  | @cons e e' _ _ hfirst _ ih =>
    obtain ⟨k, v⟩ := e
    obtain ⟨rfl, hdecode⟩ := hfirst
    rw [Source.ofMembers, Decoder.entries, hdecode]
    exact ih

private theorem table_ofMembers {t : Table String α} {ms : Parts}
    (h : List.Forall₂ (fun e e' => e.1 = e'.1 ∧ d (.ofValue e.2) = .ok e'.2) ms t.toList) :
    Decoder.table d (.ofValue (.object ms)) = .ok t := by
  have hentries : t.toList.foldl (fun t e => t.insert e.1 e.2) .empty = t := by
    have hsame : (t.toList.foldl (fun t e => t.insert e.1 e.2) (.empty : Table String α)).entries =
        t.entries := insert_ascending (t := .empty) t.ascending
    exact Table.ext_get? fun name => congrArg (Table.find name) hsame
  rw [Source.ofValue, Decoder.table, entries_ofMembers h, hentries]
  rfl

theorem decodes_table {t : Table String α} (h : ∀ e ∈ t.toList, Decodes d e.2 (encode e.2)) :
    Decodes (Decoder.table d) t (tableValue encode t) where
  plain := by
    refine table_ofMembers (List.forall₂_map_left_iff.2 (List.forall₂_same.2 fun e he => ?_))
    exact ⟨rfl, (h e he).plain⟩
  tidy := by
    have hascending : Ascending ([] ++ t.toList.map fun e => (e.1, encode e.2)) :=
      List.pairwise_map.2 t.ascending
    rw [tableValue, Value.tidy, tidyMembers_ascending hascending, List.nil_append, List.map_map]
    refine table_ofMembers (List.forall₂_map_left_iff.2 (List.forall₂_same.2 fun e he => ?_))
    exact ⟨rfl, (h e he).tidy⟩

end Containers

attribute [simp] valueOf_append

section Groups

variable {encode : α → Value} {name other : String} {names names' : List String} {v : Value}
  {ms ms' : Parts} {levels : Nat}

@[simp] theorem valueOf_member (name other : String) (v : Value) :
    valueOf other (member name v) = if name = other then some v else none := rfl

@[simp] theorem valueOf_optionalMember (name other : String) (encode : α → Value) (o : Option α) :
    valueOf other (optionalMember name encode o) =
      if name = other then o.map encode else none := by
  cases o with
  | none => exact (ite_self _).symm
  | some a => rfl

@[simp] theorem valueOf_listMember (name other : String) (encode : α → Value) (items : List α) :
    valueOf other (listMember name encode items) =
      if name = other then if items = [] then none else some (listValue encode items)
      else none := by
  cases items with
  | nil => exact (ite_self _).symm
  | cons a items => rfl

theorem names_member (name : String) (v : Value) :
    ((member name v).map Prod.fst).Sublist [name] := .refl _

theorem names_optionalMember (name : String) (encode : α → Value) (o : Option α) :
    ((optionalMember name encode o).map Prod.fst).Sublist [name] := by
  cases o with
  | none => exact List.nil_sublist _
  | some a => exact .refl _

theorem names_listMember (name : String) (encode : α → Value) (items : List α) :
    ((listMember name encode items).map Prod.fst).Sublist [name] := by
  cases items with
  | nil => exact List.nil_sublist _
  | cons a items => exact .refl _

theorem names_append (h : (ms.map Prod.fst).Sublist names)
    (h' : (ms'.map Prod.fst).Sublist names') :
    ((ms ++ ms').map Prod.fst).Sublist (names ++ names') := by
  rw [List.map_append]
  exact h.append h'

theorem fits_listValue {items : List α} (h : ∀ a ∈ items, (encode a).Fits levels) :
    (listValue encode items).Fits (levels + 1) := by
  refine .array fun v hv => ?_
  obtain ⟨a, ha, rfl⟩ := List.mem_map.1 hv
  exact h a ha

theorem fits_listMember {items : List α} (h : ∀ a ∈ items, (encode a).Fits levels) :
    ∀ e ∈ listMember name encode items, e.2.Fits (levels + 1) := by
  intro e he
  cases items with
  | nil => cases he
  | cons a items =>
    obtain rfl := List.mem_singleton.1 he
    exact fits_listValue h

theorem fits_append (h : ∀ e ∈ ms, e.2.Fits levels) (h' : ∀ e ∈ ms', e.2.Fits levels) :
    ∀ e ∈ ms ++ ms', e.2.Fits levels := List.forall_mem_append.2 ⟨h, h'⟩

end Groups

section Records

variable {form : RecordForm α} {f : Field α} {a x : α} {ms ms' : Parts}

/-- Whether members have a value for a field that decodes to something, or none where the lack of
one stands for it. -/
structure Field.Holds (f : Field α) (a : α) (ms : Parts) : Prop where
  value : ∀ v, valueOf f.name ms = some v → Decodes f.decode a v
  absent : valueOf f.name ms = none → f.absent = some a

section Holds

variable {d : Decoder α} {name : String} {v : Value}

theorem holds_of_value (h : valueOf f.name ms = some v) (hv : Decodes f.decode a v) :
    f.Holds a ms where
  value _ hv' := Option.some.inj (h.symm.trans hv') ▸ hv
  absent hnone := nomatch h.symm.trans hnone

theorem holds_of_absent (h : valueOf f.name ms = none) (ha : f.absent = some a) :
    f.Holds a ms where
  value _ hv := nomatch h.symm.trans hv
  absent _ := ha

theorem holds_required (h : valueOf name ms = some v) (hv : Decodes d a v) :
    (Field.required name d).Holds a ms := holds_of_value h hv

theorem holds_lenient [Inhabited α] (h : valueOf name ms = some v) (hv : Decodes d a v)
    (hpresent : v.isNull = false) : (Field.lenient name d).Holds a ms :=
  holds_of_value h (hv.orDefault hpresent)

theorem holds_optional (encode : α → Value) (o : Option α) (h : valueOf name ms = o.map encode)
    (hdecodes : ∀ a, o = some a → Decodes d a (encode a))
    (hpresent : ∀ a, (encode a).isNull = false) : (Field.optional name d).Holds o ms := by
  cases o with
  | none => exact holds_of_absent h rfl
  | some a => exact holds_of_value h ((hdecodes a rfl).optional (hpresent a))

theorem holds_list (encode : α → Value) (items : List α)
    (h : valueOf name ms = if items = [] then none else some (listValue encode items))
    (hdecodes : ∀ a ∈ items, Decodes d a (encode a)) :
    (Field.defaulted name (Decoder.list d) []).Holds items ms := by
  by_cases hitems : items = []
  · rw [if_pos hitems] at h
    exact holds_of_absent h (congrArg some hitems.symm)
  · rw [if_neg hitems] at h
    exact holds_of_value h (decodes_list hdecodes)

end Holds

/-- Members that say the same as others and name nothing twice: under each name they have the same
value, or its tidy form. -/
structure Says (ms ms' : Parts) : Prop where
  names : (ms'.map Prod.fst).Nodup
  values : ∀ name, valueOf name ms' = valueOf name ms ∨
    valueOf name ms' = (valueOf name ms).map Value.tidy

theorem Says.take (h : Says ms ms') (hf : f.Holds a ms) :
    f.take (Source.ofMembers ms') = .ok a := by
  rw [take_ofMembers]
  cases hv : valueOf f.name ms with
  | none =>
    have hnone : valueOf f.name ms' = none := by
      rcases h.values f.name with hsame | hsame <;> simp [hsame, hv]
    rw [hnone, hf.absent hv]
  | some v =>
    rcases h.values f.name with hsame | hsame <;> rw [hsame, hv]
    · exact (hf.value v hv).plain
    · exact (hf.value v hv).tidy

/-- Whether a record takes members: the values of the names that it knows pass their checks, and it
can be built. -/
structure RecordForm.Takes (form : RecordForm α) (x : α) (ms : Parts) : Prop where
  checks : ∀ k ∈ form.known, ∀ v, valueOf k.name ms = some v → k.check (.ofValue v) = .ok ()
  build : form.build (Source.ofMembers ms) = .ok x

theorem RecordForm.Takes.decode (h : form.Takes x ms) (hnames : (ms.map Prod.fst).Nodup) :
    form.decode (.ofValue (.object ms)) = .ok x := by
  have honce (name : String) : timesOf name ms ≤ 1 := List.nodup_iff_count_le_one.1 hnames name
  refine RecordForm.decode_object_eq_ok_iff.2 ⟨⟨fun name k hk v hv => ?_,
    fun _ name _ _ => honce name, fun _ _ _ _ hseen => absurd hseen List.not_mem_nil⟩, h.build⟩
  have hname : k.name = name := by simpa using List.find?_some hk
  exact h.checks k (List.mem_of_find?_eq_some hk) v (hname ▸ valueOf_of_mem hv (honce name))

/-- An object decodes to a record that takes all members that say the same as its own do. -/
theorem decodes_object (hnames : (ms.map Prod.fst).Nodup)
    (h : ∀ ms', Says ms ms' → form.Takes x ms') : Decodes form.decode x (.object ms) where
  plain := (h ms ⟨hnames, fun _ => .inl rfl⟩).decode hnames
  tidy := by
    obtain ⟨ms', htidy, hnames', hvalue⟩ := tidy_object ms
    rw [htidy]
    exact (h ms' ⟨hnames', fun name => .inr (hvalue name)⟩).decode hnames'

end Records

end Relocation.Json
