import Mathlib.Data.Finmap

/-!
# Tables with a primary key

A table is a finite map from its primary key to its row, so two rows can not
share a key. The operations are those of keyed SQL statements: insertion that
ignores or merges a conflicting row, deletion and update by key, deletion by
condition, and selection. Each has one lookup lemma; callers never unfold it.
-/

namespace ScamLens.KeyedTables

variable {κ ρ β : Type*} [DecidableEq κ]

/-- A finite table: at most one row for each primary key. -/
abbrev Table (κ ρ : Type*) := Finmap (fun _ : κ => ρ)

/-- Insert the row unless its key is taken (ON CONFLICT DO NOTHING). -/
def insertIgnore (t : Table κ ρ) (key : κ) (row : ρ) : Table κ ρ :=
  if key∈t then t else t.insert key row

/-- Insert the row, or merge it into the row that holds its key already
(ON CONFLICT DO UPDATE). -/
def upsert (t : Table κ ρ) (key : κ) (row : ρ) (merge : ρ → ρ → ρ) : Table κ ρ :=
  match t.lookup key with
  | some old => t.insert key (merge old row)
  | none => t.insert key row

/-- Rewrite the row at one key, if there is one. -/
def modifyAt (t : Table κ ρ) (key : κ) (f : ρ → ρ) : Table κ ρ :=
  match t.lookup key with
  | some row => t.insert key (f row)
  | none => t

/-- Delete every row that satisfies the condition. -/
def deleteWhere (t : Table κ ρ) (p : ρ → Bool) : Table κ ρ :=
  ⟨t.entries.filter (fun entry => p entry.2=false),
    t.induction_on fun rows => rows.nodupKeys.sublist List.filter_sublist⟩

/-- Insert a batch of rows one by one, each ignored when its key is taken. -/
def insertAllIgnore (t : Table κ ρ) (rows : List (κ×ρ)) : Table κ ρ :=
  rows.foldl (fun t row => insertIgnore t row.1 row.2) t

/-- The set of values that a query computes from the rows it accepts. -/
def select [DecidableEq β] (t : Table κ ρ) (f : κ → ρ → Option β) : Finset β :=
  t.keys.biUnion fun key => ((t.lookup key).bind (f key)).toFinset

/-- Insertion fixes the row at its key and leaves every other lookup alone. -/
theorem lookup_insert_ite (t : Table κ ρ) (key other : κ) (row : ρ) :
    (t.insert key row).lookup other=if other=key then some row else t.lookup other := by
  by_cases h : other=key
  · rw [if_pos h,h,Finmap.lookup_insert]
  · rw [if_neg h,Finmap.lookup_insert_of_ne t h]

/-- Deletion by key empties its key and leaves every other lookup alone. -/
theorem lookup_erase_ite (t : Table κ ρ) (key other : κ) :
    (t.erase key).lookup other=if other=key then none else t.lookup other := by
  by_cases h : other=key
  · rw [if_pos h,h,Finmap.lookup_erase]
  · rw [if_neg h,Finmap.lookup_erase_ne h]

theorem mem_insertIgnore {t : Table κ ρ} {key other : κ} {row : ρ} :
    other∈insertIgnore t key row ↔ other=key ∨ other∈t := by
  unfold insertIgnore
  split
  · rename_i h
    exact ⟨Or.inr,fun ho => ho.elim (fun he => he ▸ h) id⟩
  · exact Finmap.mem_insert

/-- An ignored insertion keeps an existing row and every other lookup. -/
theorem lookup_insertIgnore (t : Table κ ρ) (key other : κ) (row : ρ) :
    (insertIgnore t key row).lookup other=
      if other=key then some ((t.lookup key).getD row) else t.lookup other := by
  unfold insertIgnore
  split
  · rename_i h
    obtain ⟨old,ho⟩ := Finmap.mem_iff.mp h
    by_cases he : other=key
    · rw [if_pos he,he,ho,Option.getD_some]
    · rw [if_neg he]
  · rename_i h
    rw [lookup_insert_ite,Finmap.lookup_eq_none.mpr h,Option.getD_none]

/-- A row that is there before an ignored insertion is there after it. -/
theorem lookup_insertIgnore_of_some {t : Table κ ρ} {key other : κ} {row old : ρ}
    (h : t.lookup other=some old) : (insertIgnore t key row).lookup other=some old := by
  rw [lookup_insertIgnore]
  split
  · rename_i he
    rw [←he,h,Option.getD_some]
  · exact h

theorem mem_upsert {t : Table κ ρ} {key other : κ} {row : ρ} {merge : ρ → ρ → ρ} :
    other∈upsert t key row merge ↔ other=key ∨ other∈t := by
  unfold upsert
  split <;> exact Finmap.mem_insert

theorem lookup_upsert (t : Table κ ρ) (key other : κ) (row : ρ) (merge : ρ → ρ → ρ) :
    (upsert t key row merge).lookup other=
      if other=key then some (((t.lookup key).map (merge · row)).getD row)
      else t.lookup other := by
  unfold upsert
  split <;> rename_i h <;> rw [lookup_insert_ite,h] <;> rfl

theorem lookup_modifyAt (t : Table κ ρ) (key other : κ) (f : ρ → ρ) :
    (modifyAt t key f).lookup other=
      if other=key then (t.lookup key).map f else t.lookup other := by
  unfold modifyAt
  split <;> rename_i h
  · rw [lookup_insert_ite,h,Option.map_some]
  · by_cases he : other=key
    · rw [if_pos he,he,h,Option.map_none]
    · rw [if_neg he]

theorem lookup_deleteWhere (t : Table κ ρ) (p : ρ → Bool) (key : κ) :
    (deleteWhere t p).lookup key=(t.lookup key).filter (fun row => !p row) := by
  apply Option.ext
  intro row
  rw [Option.filter_eq_some_iff,Finmap.lookup_eq_some_iff,Finmap.lookup_eq_some_iff]
  simp only [deleteWhere,Multiset.mem_filter,Bool.not_eq_true']

/-- A conditional deletion keeps the keys without a row to delete. -/
theorem mem_deleteWhere {t : Table κ ρ} {p : ρ → Bool} {key : κ} :
    key∈deleteWhere t p ↔ key∈t ∧ ¬∃ row, t.lookup key=some row ∧ p row=true := by
  rw [Finmap.mem_iff,Finmap.mem_iff]
  simp only [lookup_deleteWhere,Option.filter_eq_some_iff,Bool.not_eq_true']
  constructor
  · intro h
    obtain ⟨row,hrow,hkeep⟩ := h
    refine ⟨⟨row,hrow⟩,fun hdelete => ?_⟩
    obtain ⟨other,hother,hgone⟩ := hdelete
    rw [Option.some.inj (hother.symm.trans hrow),hkeep] at hgone
    cases hgone
  · intro h
    obtain ⟨⟨row,hrow⟩,hkept⟩ := h
    exact ⟨row,hrow,Bool.eq_false_iff.mpr fun hgone => hkept ⟨row,hrow,hgone⟩⟩

/-- A deletion keeps every other key. -/
theorem mem_erase_iff {t : Table κ ρ} {key other : κ} :
    other∈t.erase key ↔ other∈t ∧ ¬key=other := by
  rw [Finmap.mem_erase,and_comm,ne_comm]

/-- A batch insertion keeps every row that was there before it. -/
theorem lookup_insertAllIgnore_of_some {t : Table κ ρ} {key : κ} {old : ρ}
    (h : t.lookup key=some old) (rows : List (κ×ρ)) :
    (insertAllIgnore t rows).lookup key=some old := by
  induction rows generalizing t with
  | nil => exact h
  | cons row rows ih => exact ih (lookup_insertIgnore_of_some h)

/-- A batch insertion gives a free key the first of its rows. -/
theorem lookup_insertAllIgnore (t : Table κ ρ) (rows : List (κ×ρ)) (key : κ) :
    (insertAllIgnore t rows).lookup key=
      (t.lookup key).or ((rows.find? fun row => decide (row.1=key)).map Prod.snd) := by
  induction rows generalizing t with
  | nil => rw [List.find?_nil,Option.map_none,Option.or_none,insertAllIgnore,List.foldl_nil]
  | cons row rows ih =>
    change (insertAllIgnore (insertIgnore t row.1 row.2) rows).lookup key=_
    rw [ih,lookup_insertIgnore,List.find?_cons]
    by_cases h : row.1=key
    · rw [if_pos h.symm,decide_eq_true h,h]
      cases t.lookup key <;> rfl
    · rw [if_neg (Ne.symm h),decide_eq_false h]

theorem mem_insertAllIgnore {t : Table κ ρ} {key : κ} {rows : List (κ×ρ)} :
    key∈insertAllIgnore t rows ↔ key∈t ∨ key∈rows.map Prod.fst := by
  induction rows generalizing t with
  | nil => simp only [insertAllIgnore,List.foldl_nil,List.map_nil,List.not_mem_nil,or_false]
  | cons row rows ih =>
    change key∈insertAllIgnore (insertIgnore t row.1 row.2) rows ↔ _
    rw [ih,mem_insertIgnore,List.map_cons,List.mem_cons]
    tauto

theorem mem_select [DecidableEq β] {t : Table κ ρ} {f : κ → ρ → Option β} {b : β} :
    b∈select t f ↔ ∃ key row, t.lookup key=some row ∧ f key row=some b := by
  simp only [select,Finset.mem_biUnion,Option.mem_toFinset,Option.mem_def,
    Option.bind_eq_some_iff]
  constructor
  · rintro ⟨key,-,row,hr,hb⟩
    exact ⟨key,row,hr,hb⟩
  · rintro ⟨key,row,hr,hb⟩
    exact ⟨key,Finmap.mem_keys.mpr (Finmap.mem_of_lookup_eq_some hr),row,hr,hb⟩

end ScamLens.KeyedTables
