/-
  Names bound to texts, in the order in which the names were first bound. A name is bound once:
  binding it again changes its text and keeps its place (`keys_insert`, `get?_insert`).
-/

namespace Gherkin

namespace Bindings

/-- Binds a name in a list of entries. -/
def put (name value : String) : List (String × String) → List (String × String)
  | [] => [(name, value)]
  | (k, v) :: rest => if k = name then (k, value) :: rest else (k, v) :: put name value rest

theorem keys_put (name value : String) (es : List (String × String)) :
    (put name value es).map Prod.fst =
      if name ∈ es.map Prod.fst then es.map Prod.fst else es.map Prod.fst ++ [name] := by
  induction es with
  | nil => simp [put]
  | cons e es ih =>
    by_cases h : e.1 = name
    · simp [put, h]
    · simp only [put, if_neg h, List.map_cons, ih, List.mem_cons, Ne.symm h, false_or]
      split <;> simp

theorem nodup_put {name value : String} {es : List (String × String)}
    (h : (es.map Prod.fst).Nodup) : ((put name value es).map Prod.fst).Nodup := by
  rw [keys_put]
  split
  · exact h
  · rename_i hn
    exact List.nodup_append.2 ⟨h, by simp, by simpa using fun a b hb => fun e => hn (by
      subst e; exact List.mem_map.2 ⟨(a, b), hb, rfl⟩)⟩

end Bindings

/-- Names bound to texts; no name stands twice. -/
structure Bindings where
  entries : List (String × String)
  nodup : (entries.map Prod.fst).Nodup
deriving DecidableEq

namespace Bindings

/-- No name is bound. -/
def empty : Bindings := ⟨[], by simp⟩

/-- The bound names in order. -/
def keys (b : Bindings) : List String := b.entries.map Prod.fst

/-- The bound texts in order. -/
def values (b : Bindings) : List String := b.entries.map Prod.snd

/-- Binds a name, in its old place if it has one and else at the end. -/
def insert (b : Bindings) (name value : String) : Bindings :=
  ⟨put name value b.entries, nodup_put b.nodup⟩

/-- Binds the names of pairs from left to right. -/
def ofList (pairs : List (String × String)) : Bindings :=
  pairs.foldl (fun b p => b.insert p.1 p.2) empty

/-- The text bound to a name. -/
def get? (b : Bindings) (name : String) : Option String := b.entries.lookup name

theorem keys_insert (b : Bindings) (name value : String) :
    (b.insert name value).keys = if name ∈ b.keys then b.keys else b.keys ++ [name] :=
  keys_put name value b.entries

theorem lookup_put (name value k : String) (es : List (String × String)) :
    (put name value es).lookup k = if k = name then some value else es.lookup k := by
  have skip {a : String} (h : ¬k = a) : (k == a) = false := by simpa using h
  induction es with
  | nil => by_cases h : k = name <;> simp [put, List.lookup_cons, h, skip]
  | cons e es ih =>
    obtain ⟨a, v⟩ := e
    by_cases h : a = name <;> by_cases hk : k = a
    · simp [put, h, hk]
    · simp [put, ← h, hk, List.lookup_cons, skip hk]
    · simp [put, h, hk]
    · simp [put, h, List.lookup_cons, skip hk, ih]

theorem get?_insert (b : Bindings) (name value k : String) :
    (b.insert name value).get? k = if k = name then some value else b.get? k :=
  lookup_put name value k b.entries

end Bindings

end Gherkin
