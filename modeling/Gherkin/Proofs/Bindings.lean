import Gherkin.Step
import Mathlib.Data.List.Nodup

/-
  Bindings of distinct names. Binding pairs whose names are distinct keeps every pair in its place
  (`entries_ofList`), so a row as wide as a header of distinct names has the header's names as its
  keys, the row's cells as its values, and under each name the cell of that column.
-/

namespace Gherkin.Bindings

theorem put_of_not_mem {name value : String} {es : List (String × String)}
    (h : name ∉ es.map Prod.fst) : put name value es = es ++ [(name, value)] := by
  induction es with
  | nil => rfl
  | cons e es ih =>
    rw [List.map_cons, List.mem_cons, not_or] at h
    rw [put, if_neg (Ne.symm h.1), ih h.2, List.cons_append]

theorem entries_foldl_insert {b : Bindings} {pairs : List (String × String)}
    (h : ((b.entries ++ pairs).map Prod.fst).Nodup) :
    (pairs.foldl (fun b p => b.insert p.1 p.2) b).entries = b.entries ++ pairs := by
  induction pairs generalizing b with
  | nil => simp
  | cons p pairs ih =>
    have hp : p.1 ∉ b.entries.map Prod.fst := by
      intro hp
      rw [List.map_append, List.map_cons] at h
      exact (List.nodup_append.1 h).2.2 _ hp _ List.mem_cons_self rfl
    have he : (b.insert p.1 p.2).entries = b.entries ++ [p] := put_of_not_mem hp
    rw [List.foldl_cons, ih (by rwa [he, List.append_assoc]), he, List.append_assoc,
      List.singleton_append]

/-- Pairs of distinct names are the entries of their bindings. -/
theorem entries_ofList {pairs : List (String × String)} (h : (pairs.map Prod.fst).Nodup) :
    (ofList pairs).entries = pairs := entries_foldl_insert (b := empty) h

theorem ext {b c : Bindings} (h : b.entries = c.entries) : b = c := by
  cases b
  cases c
  congr

theorem ofList_entries (b : Bindings) : ofList b.entries = b := ext (entries_ofList b.nodup)

theorem lookup_of_mem {name value : String} {es : List (String × String)}
    (hn : (es.map Prod.fst).Nodup) (h : (name, value) ∈ es) : es.lookup name = some value := by
  induction es with
  | nil => cases h
  | cons e es ih =>
    rw [List.map_cons, List.nodup_cons] at hn
    rcases List.mem_cons.1 h with rfl | h
    · simp
    · have hne : name ≠ e.1 := by
        intro he
        exact hn.1 (List.mem_map.2 ⟨_, h, he⟩)
      have hskip : (name == e.1) = false := by simpa using hne
      rw [List.lookup_cons, hskip]
      exact ih hn.2 h

/-! ## A row under a header -/

section Row

variable {header row : List String}

theorem entries_ofList_zip (hd : header.Nodup) (hw : row.length = header.length) :
    (ofList (header.zip row)).entries = header.zip row := by
  apply entries_ofList
  rw [List.map_fst_zip (Nat.le_of_eq hw.symm)]
  exact hd

theorem keys_ofList_zip (hd : header.Nodup) (hw : row.length = header.length) :
    (ofList (header.zip row)).keys = header := by
  rw [keys, entries_ofList_zip hd hw, List.map_fst_zip (Nat.le_of_eq hw.symm)]

theorem values_ofList_zip (hd : header.Nodup) (hw : row.length = header.length) :
    (ofList (header.zip row)).values = row := by
  rw [values, entries_ofList_zip hd hw, List.map_snd_zip (Nat.le_of_eq hw)]

/-- The name of a column is bound to the cell of that column. -/
theorem get?_ofList_zip (hd : header.Nodup) (hw : row.length = header.length) {i : Nat}
    (hi : i < header.length) : (ofList (header.zip row)).get? header[i] = row[i]? := by
  have hr : i < row.length := hw ▸ hi
  have hmem : (header[i], row[i]) ∈ header.zip row := by
    have hz : i < (header.zip row).length := by
      rw [List.length_zip]
      omega
    rw [← List.getElem_zip (h := hz)]
    exact List.getElem_mem hz
  rw [List.getElem?_eq_getElem hr]
  rw [← entries_ofList_zip hd hw] at hmem
  exact lookup_of_mem (ofList (header.zip row)).nodup hmem

end Row

end Gherkin.Bindings
