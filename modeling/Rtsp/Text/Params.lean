-- SUMMARY: Named parameters with text values.

/-!
# Parameters

A finite map from names to values in which a later assignment to a name replaces the earlier one.
-/

namespace Rtsp.Text

structure Params where
  entries : List (String × String)
  deriving DecidableEq, Repr

namespace Params

def empty : Params := ⟨[]⟩

instance : EmptyCollection Params := ⟨empty⟩
instance : Inhabited Params := ⟨empty⟩

def get? (p : Params) (key : String) : Option String :=
  p.entries.lookup key

def insertEntry (key value : String) : List (String × String) → List (String × String)
  | [] => [(key, value)]
  | (k, v) :: rest => if k = key then (k, value) :: rest else (k, v) :: insertEntry key value rest

def insert (p : Params) (key value : String) : Params :=
  ⟨insertEntry key value p.entries⟩

theorem eq_empty {p : Params} (h : p.entries = []) : p = {} := by
  obtain ⟨entries⟩ := p
  exact congrArg Params.mk h

theorem lookup_insertEntry (key value key' : String) (entries : List (String × String)) :
    (insertEntry key value entries).lookup key'
      = if key' = key then some value else entries.lookup key' := by
  induction entries with
  | nil => grind [insertEntry]
  | cons e rest ih => grind [insertEntry]

/-- Inserting changes the value of one key and of no other. -/
theorem get?_insert (p : Params) (key value key' : String) :
    (p.insert key value).get? key' = if key' = key then some value else p.get? key' :=
  lookup_insertEntry key value key' p.entries

theorem insertEntry_of_not_mem {key : String} {entries : List (String × String)}
    (h : key ∉ entries.map Prod.fst) (value : String) :
    insertEntry key value entries = entries ++ [(key, value)] := by
  induction entries with
  | nil => rfl
  | cons e rest ih => grind [insertEntry]

/-- An assignment that is there already changes nothing. -/
theorem insertEntry_of_mem {key value : String} {entries : List (String × String)}
    (hnodup : (entries.map Prod.fst).Nodup) (h : (key, value) ∈ entries) :
    insertEntry key value entries = entries := by
  induction entries with
  | nil => cases h
  | cons e rest ih => grind [insertEntry]

/-- Assignments to different names are kept in their order. -/
theorem foldl_insert_append {before entries : List (String × String)}
    (h : ((before ++ entries).map Prod.fst).Nodup) :
    entries.foldl (fun (p : Params) e => p.insert e.1 e.2) ⟨before⟩ = ⟨before ++ entries⟩ := by
  induction entries generalizing before with
  | nil => rw [List.append_nil]; rfl
  | cons e rest ih =>
    have hnew : e.1 ∉ before.map Prod.fst := by
      rw [List.map_append, List.nodup_append] at h
      exact fun hmem => h.2.2 e.1 hmem e.1 (by simp) rfl
    rw [List.append_cons] at h
    rw [List.foldl_cons, Params.insert, insertEntry_of_not_mem hnew, ih h, ← List.append_cons]

theorem foldl_insert_of_subset {p : Params} {entries : List (String × String)}
    (hnodup : (p.entries.map Prod.fst).Nodup) (h : ∀ e ∈ entries, e ∈ p.entries) :
    entries.foldl (fun (p : Params) e => p.insert e.1 e.2) p = p := by
  induction entries with
  | nil => rfl
  | cons e rest ih =>
    have hsame : p.insert e.1 e.2 = p := by
      rw [Params.insert, insertEntry_of_mem hnodup (h e List.mem_cons_self)]
    rw [List.foldl_cons, hsame, ih fun e' he' => h e' (List.mem_cons_of_mem _ he')]

/-- Where no name is repeated, every assignment is found. -/
theorem get?_eq_some_iff {p : Params} (hnodup : (p.entries.map Prod.fst).Nodup)
    {key value : String} : p.get? key = some value ↔ (key, value) ∈ p.entries := by
  obtain ⟨entries⟩ := p
  unfold get?
  induction entries with
  | nil => simp
  | cons e rest ih =>
    obtain ⟨name, first⟩ := e
    obtain ⟨hnew, hrest⟩ := List.nodup_cons.1 hnodup
    have hother : (name, value) ∉ rest := fun hmem => hnew (List.mem_map.2 ⟨_, hmem, rfl⟩)
    grind

/-- The order of the assignments makes no difference. -/
theorem get?_of_perm {p q : Params} (hnodup : (p.entries.map Prod.fst).Nodup)
    (h : p.entries.Perm q.entries) : p.get? = q.get? := by
  funext key
  apply Option.ext
  intro value
  rw [get?_eq_some_iff hnodup, get?_eq_some_iff ((h.map Prod.fst).nodup hnodup), h.mem_iff]

end Params
end Rtsp.Text
