import Mathlib.Data.List.Induction
import StateEngine.Definition.Compile

/-!
# Filling the table of states

The records of a definition are entered one by one into its table of states, by the place at which the name of a
state stands. If no name stands twice, then each ends up with just the records that leave it and those that enter
it, in their order.

* `State.change_map`: the entry of one name changes, and no other.
* `State.ofRecords`: a state with its records, without the table.
* `State.table_eq`: **what the table holds** once it is filled.
-/

namespace StateEngine.State

variable {names : List String}

/-- **A state with its records**, picked from all records in order. -/
def ofRecords (records : List Record) (name : String) : State :=
  ⟨name, records.filter (·.fromState == name), records.filter (·.toState == name)⟩

/-- Where each name stands once, the entry of a name is changed and no other one. -/
theorem change_map (h : names.Nodup) (name : String) (f : State → State) (g : String → State) :
    change names name f (names.map g) = names.map fun n => if n = name then f (g n) else g n := by
  induction names with
  | nil => rfl
  | cons n rest ih =>
    obtain ⟨hn, hrest⟩ := List.nodup_cons.1 h
    rw [change, List.findIdx?_cons]
    by_cases hname : n = name
    · -- the first name is the one, and does not come again
      subst hname
      have hothers : rest.map g = rest.map fun k => if k = n then f (g k) else g k :=
        List.map_congr_left fun k hk => (if_neg fun heq : k = n => hn (heq ▸ hk)).symm
      simp [hothers]
    · have htail := ih hrest
      rw [change] at htail
      rw [if_neg (by simpa using hname), List.map_cons, List.map_cons, if_neg hname, ← htail]
      cases rest.findIdx? (· == name) with
      | none => rfl
      | some place => rfl

/-- One more record among those that have a name. -/
theorem filter_concat (key : Record → String) (records : List Record) (record : Record) (name : String) :
    (records ++ [record]).filter (key · == name) =
      if name = key record then records.filter (key · == name) ++ [record] else records.filter (key · == name) := by
  rw [List.filter_append]
  by_cases h : name = key record
  · simp [h]
  · simp [h, Ne.symm h]

/-- One more record of all. -/
theorem ofRecords_concat (records : List Record) (record : Record) (name : String) :
    ofRecords (records ++ [record]) name =
      if name = record.toState then
        addEnter record (if name = record.fromState then addExit record (ofRecords records name)
          else ofRecords records name)
      else if name = record.fromState then addExit record (ofRecords records name)
      else ofRecords records name := by
  rw [ofRecords, filter_concat (·.fromState), filter_concat (·.toState)]
  split_ifs <;> rfl

/-- A record that is entered into the table of some others. -/
theorem index_ofRecords (h : names.Nodup) (records : List Record) (record : Record) :
    index names (names.map (ofRecords records)) record = names.map (ofRecords (records ++ [record])) := by
  rw [index, change_map h, change_map h]
  exact List.map_congr_left fun name _ => (ofRecords_concat records record name).symm

/-- **A filled table of states** has for each name the records that leave it and those that enter it, in order. -/
theorem table_eq (h : names.Nodup) (records : List Record) : table names records = names.map (ofRecords records) := by
  unfold table
  induction records using List.reverseRecOn with
  | nil => rfl
  | append_singleton records record ih =>
    rw [List.foldl_append, ih]
    exact index_ofRecords h records record

/-- The names of a table do not change while it is filled. -/
theorem name_table (h : names.Nodup) (records : List Record) : (table names records).map (·.name) = names := by
  rw [table_eq h, List.map_map]
  exact List.map_id names

end StateEngine.State
