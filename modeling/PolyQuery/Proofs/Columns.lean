import PolyQuery.Proofs.Cells
import PolyQuery.Proofs.Loading

/-! What is read of a row. A record lists its fields in an order of its own, and a field that is entered
twice has the later value: `Fields.lookup_ofList`. So a property of a record is what is read from the
last of the columns that become it: `lookup_decodeRow`. -/
namespace PolyQuery

/-! ## Fields -/

namespace Fields
variable {α : Type} {fields others : List (String × α)} {key : String}

theorem perm_insertByPosition (n : Nat) (f : String × α) (fields : List (String × α)) :
    (insertByPosition n f fields).Perm (f :: fields) := by
  induction fields with
  | nil => exact .refl _
  | cons g rest ih =>
    have hbehind : (g :: insertByPosition n f rest).Perm (f :: g :: rest) :=
      (ih.cons g).trans (.swap f g rest)
    unfold insertByPosition
    split
    · split
      · exact .refl _
      · exact hbehind
    · exact .refl _

/-- The order in which an object lists its fields is one of the same fields. -/
theorem perm_arrange (fields : List (String × α)) : (arrange fields).Perm fields := by
  have hfold (positions inserted : List (String × α)) : (positions.foldl (fun acc f =>
      insertByPosition ((position? f.1).getD 0) f acc) inserted).Perm (positions ++ inserted) := by
    induction positions generalizing inserted with
    | nil => exact .refl _
    | cons f rest ih =>
      rw [List.foldl_cons, List.cons_append]
      exact ((ih _).trans ((perm_insertByPosition _ f inserted).append_left rest)).trans
        List.perm_middle
  have hothers : (fields.filter fun f => (position? f.1).isNone) =
      fields.filter fun f => !(position? f.1).isSome := by
    simp
  unfold arrange
  dsimp only
  rw [hothers]
  refine .trans ((hfold _ []).append_right _) ?_
  rw [List.append_nil]
  exact List.filter_append_perm ..

theorem lookup_eq_none : fields.lookup key = none ↔ key ∉ fields.map Prod.fst := by
  rw [List.lookup_eq_none_iff, List.mem_map]
  simp only [bne_iff_ne, ne_eq, not_exists, not_and]
  exact ⟨fun h f hf heq => h f hf heq.symm, fun h f hf heq => h f hf heq.symm⟩

/-- Where every key stands once, a value is found whatever the order. -/
theorem lookup_perm (h : others.Perm fields) (hdistinct : (fields.map Prod.fst).Nodup) (key : String) :
    others.lookup key = fields.lookup key := by
  have hothers : (others.map Prod.fst).Nodup := (h.map Prod.fst).nodup_iff.2 hdistinct
  cases hfound : fields.lookup key with
  | some a =>
    obtain ⟨before, behind, rfl, -⟩ := List.lookup_eq_some_iff.1 hfound
    exact lookup_of_mem hothers (h.mem_iff.2 (List.mem_append_right _ List.mem_cons_self))
  | none =>
    rw [List.lookup_eq_none_iff] at hfound ⊢
    exact fun e he => hfound e (h.mem_iff.1 he)

theorem map_put (fields : List (String × α)) (key : String) (a : α) :
    (put fields key a).map Prod.fst =
      if key ∈ fields.map Prod.fst then fields.map Prod.fst else fields.map Prod.fst ++ [key] := by
  induction fields with
  | nil => rfl
  | cons f rest ih =>
    obtain ⟨k, b⟩ := f
    rw [put]
    by_cases hk : k = key
    · rw [if_pos hk, if_pos (hk ▸ List.mem_cons_self)]
      rfl
    · rw [if_neg hk, List.map_cons, ih]
      simp only [List.map_cons, List.mem_cons, Ne.symm hk, false_or]
      split <;> rfl

theorem nodup_put (h : (fields.map Prod.fst).Nodup) (key : String) (a : α) :
    ((put fields key a).map Prod.fst).Nodup := by
  rw [map_put]
  split
  · exact h
  · next hnew => exact List.concat_eq_append ▸ List.Nodup.concat hnew h

/-- Of values entered under one key the last one stays. -/
theorem foldl_put (fields entries : List (String × α)) (h : (fields.map Prod.fst).Nodup) (key : String) :
    ((entries.foldl (fun acc e => put acc e.1 e.2) fields).map Prod.fst).Nodup ∧
      (entries.foldl (fun acc e => put acc e.1 e.2) fields).lookup key =
        (entries.reverse.lookup key).or (fields.lookup key) := by
  induction entries generalizing fields with
  | nil => exact ⟨h, rfl⟩
  | cons e rest ih =>
    obtain ⟨hnodup, hlookup⟩ := ih _ (nodup_put h e.1 e.2)
    refine ⟨hnodup, ?_⟩
    rw [List.foldl_cons, hlookup, Record.lookup_put, List.reverse_cons, List.lookup_append,
      Record.lookup_cons_eq]
    cases rest.reverse.lookup key with
    | some a => rfl
    | none => split <;> rfl

theorem put_of_notMem (h : key ∉ fields.map Prod.fst) (a : α) :
    put fields key a = fields ++ [(key, a)] := by
  induction fields with
  | nil => rfl
  | cons f rest ih =>
    obtain ⟨hne, hrest⟩ := not_or.1 (List.mem_cons.not.1 h)
    rw [put, if_neg (Ne.symm hne), ih hrest, List.cons_append]

/-- Fields with keys of their own are all kept. -/
theorem perm_ofList {entries : List (String × α)} (h : (entries.map Prod.fst).Nodup) :
    (ofList entries).Perm entries := by
  have hfold (fields entries : List (String × α)) (h : ((fields ++ entries).map Prod.fst).Nodup) :
      entries.foldl (fun acc e => put acc e.1 e.2) fields = fields ++ entries := by
    induction entries generalizing fields with
    | nil => exact (List.append_nil fields).symm
    | cons e rest ih =>
      have hnew : e.1 ∉ fields.map Prod.fst := by
        rw [List.map_append, List.map_cons] at h
        exact fun hmem => (List.nodup_append.1 h).2.2 _ hmem _ List.mem_cons_self rfl
      rw [List.foldl_cons, put_of_notMem hnew, ih _ (by simpa using h), List.append_assoc]
      rfl
  refine (perm_arrange _).trans (List.Perm.of_eq ?_)
  exact hfold [] entries h

theorem nodup_ofList (entries : List (String × α)) : ((ofList entries).map Prod.fst).Nodup :=
  ((perm_arrange _).map Prod.fst).nodup_iff.2 (foldl_put [] entries List.nodup_nil "").1

theorem lookup_ofList (entries : List (String × α)) (key : String) :
    (ofList entries).lookup key = entries.reverse.lookup key := by
  obtain ⟨hnodup, hlookup⟩ := foldl_put [] entries List.nodup_nil key
  refine (lookup_perm (perm_arrange _) hnodup key).trans (hlookup.trans ?_)
  cases entries.reverse.lookup key <;> rfl

theorem mem_ofList : key ∈ (ofList fields).map Prod.fst ↔ key ∈ fields.map Prod.fst := by
  rw [← not_iff_not, ← lookup_eq_none, lookup_ofList, lookup_eq_none, List.map_reverse,
    List.mem_reverse]

/-- Where every key is entered once, its value stays. -/
theorem lookup_ofList_of_nodup {entries : List (String × α)} (h : (entries.map Prod.fst).Nodup)
    (key : String) : (ofList entries).lookup key = entries.lookup key :=
  (lookup_ofList entries key).trans (lookup_perm (List.reverse_perm entries) h key)

end Fields

/-! ## Rows -/

section Decoding
variable {d : Dialect} {r : Registry} {fields : Option FieldMap} {row part record : Row}

/-- The column from which a property is read: the last one that becomes it. -/
def columnFor? (columns : List String) (property : String) : Option String :=
  columns.reverse.find? fun c => Naming.snakeToCamel c == property

/-- What is read of a row where a property is read from a column, if it is read from any. -/
def readFrom (fields : Option FieldMap) (d : Dialect) (r : Registry) (row : Row) (property : String)
    (column : Option String) : Option Value :=
  (column.bind fun c => row.lookup c).bind fun v =>
    (decodeValue (fields.bind fun fs => fs.find? property) d r v).toOption

/-- The value that is read under a property: that of the last column that becomes it. -/
def Row.valueFor? (row : Row) (property : String) : Option Value :=
  (row.reverse.find? fun entry => Naming.snakeToCamel entry.1 == property).map Prod.snd

theorem forall₂_of_mapM {α β : Type} {f : α → Except Error β} {xs : List α} {ys : List β}
    (h : xs.mapM f = .ok ys) : List.Forall₂ (fun x y => f x = .ok y) xs ys := by
  induction xs generalizing ys with
  | nil =>
    cases h
    exact .nil
  | cons x rest ih =>
    rw [List.mapM_cons] at h
    obtain ⟨y, hy, h⟩ := bind_eq_ok.1 h
    obtain ⟨others, hothers, h⟩ := bind_eq_ok.1 h
    cases h
    exact .cons hy (ih hothers)

theorem exists_of_mem_mapM {α β : Type} {f : α → Except Error β} {xs : List α} {ys : List β}
    (h : xs.mapM f = .ok ys) {y : β} (hy : y ∈ ys) : ∃ x ∈ xs, f x = .ok y := by
  obtain ⟨n, hn, rfl⟩ := List.getElem_of_mem hy
  have hread := forall₂_of_mapM h
  have hn' : n < xs.length := hread.length_eq ▸ hn
  exact ⟨xs[n], List.getElem_mem hn', hread.get hn' hn⟩

theorem mapM_of_forall {α β : Type} {f : α → Except Error β} {xs : List α}
    (h : ∀ x ∈ xs, ∃ y, f x = .ok y) : ∃ ys, xs.mapM f = .ok ys := by
  induction xs with
  | nil => exact ⟨[], rfl⟩
  | cons x rest ih =>
    obtain ⟨⟨y, hy⟩, hrest⟩ := List.forall_mem_cons.1 h
    obtain ⟨ys, hys⟩ := ih hrest
    exact ⟨y :: ys, by rw [List.mapM_cons, hy, hys]; rfl⟩

/-- A column becomes a property, and its value is read by the field of the property. -/
theorem decodeColumn_ok {entry read : String × Value} (h : decodeColumn fields d r entry = .ok read) :
    read.1 = Naming.snakeToCamel entry.1 ∧
      decodeValue (fields.bind fun fs => fs.find? read.1) d r entry.2 = .ok read.2 := by
  unfold decodeColumn at h
  obtain ⟨v, hv, h⟩ := bind_eq_ok.1 h
  cases h
  exact ⟨rfl, hv⟩

/-- What a part of a row is read as where the whole of it can be read. -/
theorem decodeRow_of_subset (h : decodeRow fields d r row = .ok record) (hpart : part ⊆ row) :
    ∃ narrow, decodeRow fields d r part = .ok narrow := by
  unfold decodeRow at h ⊢
  obtain ⟨entries, hentries, -⟩ := bind_eq_ok.1 h
  have hread : ∀ entry ∈ part, ∃ read, decodeColumn fields d r entry = .ok read := by
    intro entry hentry
    obtain ⟨n, hn, rfl⟩ := List.getElem_of_mem (hpart hentry)
    exact ⟨_, (forall₂_of_mapM hentries).get hn ((forall₂_of_mapM hentries).length_eq ▸ hn)⟩
  obtain ⟨narrow, hnarrow⟩ := mapM_of_forall hread
  exact ⟨Fields.ofList narrow, by rw [hnarrow]; rfl⟩

/-- The first of the values that are read under a property is that of the first column that becomes
it. -/
theorem lookup_of_columns {entries : List (String × Value)}
    (hread : List.Forall₂ (fun entry read => decodeColumn fields d r entry = .ok read) row entries)
    (property : String) : entries.lookup property =
      ((row.find? fun entry => Naming.snakeToCamel entry.1 == property).map Prod.snd).bind fun v =>
        (decodeValue (fields.bind fun fs => fs.find? property) d r v).toOption := by
  induction hread with
  | nil => rfl
  | @cons entry read row entries hcolumn _ ih =>
    obtain ⟨hname, hvalue⟩ := decodeColumn_ok hcolumn
    rw [Record.lookup_cons_eq, ih, hname, List.find?_cons]
    by_cases hproperty : Naming.snakeToCamel entry.1 = property
    · rw [hname, hproperty] at hvalue
      rw [if_pos hproperty.symm, beq_iff_eq.2 hproperty]
      show some read.2 = (some entry.2).bind _
      rw [Option.bind_some, hvalue]
      rfl
    · rw [if_neg (Ne.symm hproperty), beq_false_of_ne hproperty]

/-- A property of a record is the value that is read under it. -/
theorem lookup_decodeRow_valueFor? (h : decodeRow fields d r row = .ok record) (property : String) :
    record.lookup property = (row.valueFor? property).bind fun v =>
      (decodeValue (fields.bind fun fs => fs.find? property) d r v).toOption := by
  unfold decodeRow at h
  obtain ⟨entries, hentries, h⟩ := bind_eq_ok.1 h
  cases h
  rw [Fields.lookup_ofList]
  exact lookup_of_columns (List.forall₂_reverse_iff.2 (forall₂_of_mapM hentries)) property

/-- A property of a record is read from the last of the columns that become it. The columns may be
some of a row, in any order. -/
theorem lookup_decodeRow (hpart : ∀ entry ∈ part, row.lookup entry.1 = some entry.2)
    (h : decodeRow fields d r part = .ok record) (property : String) : record.lookup property =
      readFrom fields d r row property (columnFor? (part.map Prod.fst) property) := by
  have hvalue : part.valueFor? property =
      (columnFor? (part.map Prod.fst) property).bind fun c => row.lookup c := by
    have hcolumn : columnFor? (part.map Prod.fst) property =
        (part.reverse.find? fun entry => Naming.snakeToCamel entry.1 == property).map Prod.fst := by
      rw [columnFor?, ← List.map_reverse, List.find?_map]
      rfl
    rw [hcolumn, Row.valueFor?]
    cases hlast : part.reverse.find? fun entry => Naming.snakeToCamel entry.1 == property with
    | none => rfl
    | some entry => exact (hpart entry (List.mem_reverse.1 (List.mem_of_find?_eq_some hlast))).symm
  rw [lookup_decodeRow_valueFor? h, hvalue, readFrom]

theorem nodup_decodeRow (h : decodeRow fields d r row = .ok record) :
    (record.map Prod.fst).Nodup := by
  unfold decodeRow at h
  obtain ⟨entries, -, h⟩ := bind_eq_ok.1 h
  cases h
  exact Fields.nodup_ofList entries

end Decoding

/-! ## Records -/

namespace Store

/-- A record has the values of its row. -/
theorem read_ofRow {row : Row} (h : (row.map Prod.fst).Nodup) (now : Number) (property : String) :
    ((Record.ofRow row).read now property).1 = (row.lookup property).getD .undefined := by
  have hdata (fields : List (String × Value)) :
      (fields.map fun f => (f.1, Property.data f.2)).lookup property =
        (fields.lookup property).map Property.data := by
    induction fields with
    | nil => rfl
    | cons f rest ih =>
      rw [List.map_cons, Record.lookup_cons_eq, Record.lookup_cons_eq, ih]
      split <;> rfl
  have hproperty : (Record.ofRow row).properties.lookup property =
      (row.lookup property).map Property.data := by
    rw [← Fields.lookup_ofList_of_nodup h]
    exact hdata _
  unfold Record.read
  rw [hproperty]
  cases row.lookup property <;> rfl

/-- A new record has the values of its row. -/
theorem value_addRows (s : Store) {rows : List Row} {n : Nat} {row : Row} (hrow : rows[n]? = some row)
    (h : (row.map Prod.fst).Nodup) (property : String) :
    (s.addRows rows).2.value (s.records.size + n) property =
      (row.lookup property).getD .undefined := by
  induction rows generalizing s n with
  | nil => cases hrow
  | cons first rest ih =>
    have hadded : (s.add (.ofRow first)).2.records.size = s.records.size + 1 := Array.size_push ..
    cases n with
    -- rows that are added later leave the first one as it is
    | zero =>
      cases hrow
      obtain ⟨-, hnow, -, hrecord⟩ := (s.add (.ofRow row)).2.addRows_spec rest
      have hfirst : ((s.addRows (row :: rest)).2.record s.records.size) = .ofRow row := by
        refine (hrecord s.records.size (hadded ▸ Nat.lt_succ_self _)).trans ?_
        show ((s.records.push _)[s.records.size]?).getD .blank = _
        rw [Array.getElem?_push_size]
        rfl
      show (((s.addRows (row :: rest)).2.record s.records.size).read _ property).1 = _
      rw [hfirst, read_ofRow h]
    | succ n =>
      have hrest := ih (s.add (.ofRow first)).2 hrow
      rw [hadded, Nat.add_assoc, Nat.add_comm 1] at hrest
      exact hrest

end Store
end PolyQuery
