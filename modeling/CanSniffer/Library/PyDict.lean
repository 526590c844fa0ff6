import Mathlib.Tactic

namespace CanSniffer.Library

/-- A dict: its items in the order in which their keys were first set. -/
structure PyDict (κ α : Type) where
  items : List (κ × α)
  distinct : (items.map Prod.fst).Nodup

namespace PyDict

variable {κ α : Type} [DecidableEq κ]

omit [DecidableEq κ] in
def empty : PyDict κ α := ⟨[], List.nodup_nil⟩

def keys (d : PyDict κ α) : List κ := d.items.map Prod.fst

def values (d : PyDict κ α) : List α := d.items.map Prod.snd

def get? (d : PyDict κ α) (key : κ) : Option α :=
  (d.items.find? fun p => p.1 = key).map Prod.snd

/-- `d[key] = value`: a known key keeps its place, a new one goes to the end. -/
def set (d : PyDict κ α) (key : κ) (value : α) : PyDict κ α :=
  if h : key ∈ d.items.map Prod.fst then
    ⟨d.items.map fun p => if p.1 = key then (key, value) else p, by
      have hsame : (d.items.map fun p => if p.1 = key then (key, value) else p).map Prod.fst =
          d.items.map Prod.fst := by
        rw [List.map_map]
        apply List.map_congr_left
        intro p _
        dsimp only [Function.comp_apply]
        split_ifs with hp
        · exact hp.symm
        · rfl
      rw [hsame]
      exact d.distinct⟩
  else
    ⟨d.items ++ [(key, value)], by
      rw [List.map_append, List.nodup_append']
      exact ⟨d.distinct, List.nodup_singleton key, by simpa using h⟩⟩

def ofList (items : List (κ × α)) : PyDict κ α := items.foldl (fun d p => d.set p.1 p.2) empty

variable {d : PyDict κ α} {key : κ} {value : α}

@[simp] theorem get?_empty (key : κ) : (empty : PyDict κ α).get? key = none := rfl

theorem mem_of_get? (h : d.get? key = some value) : (key, value) ∈ d.items := by
  obtain ⟨p, hp, rfl⟩ := Option.map_eq_some_iff.mp h
  have hkey : p.1 = key := by simpa using List.find?_some hp
  exact hkey ▸ List.mem_of_find?_eq_some hp

theorem get?_eq_some_iff : d.get? key = some value ↔ (key, value) ∈ d.items := by
  refine ⟨mem_of_get?, fun h => ?_⟩
  obtain ⟨p, hp⟩ := Option.isSome_iff_exists.mp
    (List.find?_isSome.mpr ⟨_, h, by simp⟩ : (d.items.find? fun p => p.1 = key).isSome)
  have hmem := List.mem_of_find?_eq_some hp
  have hkey : p.1 = key := by simpa using List.find?_some hp
  have heq := List.inj_on_of_nodup_map d.distinct hmem h hkey
  rw [get?, hp, heq]
  rfl

theorem get?_isSome_iff : (d.get? key).isSome ↔ key ∈ d.keys := by
  rw [Option.isSome_iff_exists, keys, List.mem_map]
  constructor
  · rintro ⟨v, h⟩
    exact ⟨_, mem_of_get? h, rfl⟩
  · rintro ⟨p, hp, rfl⟩
    exact ⟨p.2, get?_eq_some_iff.mpr hp⟩

theorem items_set_of_mem (h : key ∈ d.keys) (value : α) :
    (d.set key value).items = d.items.map fun p => if p.1 = key then (key, value) else p := by
  have h' : key ∈ d.items.map Prod.fst := h
  rw [set, dif_pos h']

theorem items_set_of_notMem (h : key ∉ d.keys) (value : α) :
    (d.set key value).items = d.items ++ [(key, value)] := by
  have h' : key ∉ d.items.map Prod.fst := h
  rw [set, dif_neg h']

theorem keys_set_of_mem (h : key ∈ d.keys) (value : α) : (d.set key value).keys = d.keys := by
  rw [keys, keys, items_set_of_mem h, List.map_map]
  apply List.map_congr_left
  intro p _
  dsimp only [Function.comp_apply]
  split_ifs with hp
  · exact hp.symm
  · rfl

theorem keys_set_of_notMem (h : key ∉ d.keys) (value : α) :
    (d.set key value).keys = d.keys ++ [key] := by
  rw [keys, keys, items_set_of_notMem h, List.map_append]
  rfl

theorem mem_items_set {k : κ} {v : α} :
    (k, v) ∈ (d.set key value).items ↔
      (k = key ∧ v = value) ∨ (k ≠ key ∧ (k, v) ∈ d.items) := by
  by_cases hmem : key ∈ d.keys
  · rw [items_set_of_mem hmem, List.mem_map]
    constructor
    · rintro ⟨p, hp, heq⟩
      split_ifs at heq with hkey
      · cases heq
        exact .inl ⟨rfl, rfl⟩
      · cases heq
        exact .inr ⟨hkey, hp⟩
    · rintro (⟨rfl, rfl⟩ | ⟨hne, hp⟩)
      · obtain ⟨p, hp, hkey⟩ := List.mem_map.mp hmem
        exact ⟨p, hp, if_pos hkey⟩
      · exact ⟨_, hp, if_neg hne⟩
  · rw [items_set_of_notMem hmem, List.mem_append, List.mem_singleton, Prod.mk.injEq]
    constructor
    · rintro (hp | hnew)
      · refine .inr ⟨?_, hp⟩
        rintro rfl
        exact hmem (List.mem_map.mpr ⟨_, hp, rfl⟩)
      · exact .inl hnew
    · rintro (hnew | ⟨-, hp⟩)
      · exact .inr hnew
      · exact .inl hp

theorem get?_set (d : PyDict κ α) (key : κ) (value : α) :
    (d.set key value).get? = Function.update d.get? key (some value) := by
  funext k
  apply Option.ext
  intro v
  rw [get?_eq_some_iff, mem_items_set]
  by_cases hk : k = key
  · subst hk
    simp [eq_comm]
  · simp [hk, get?_eq_some_iff]

theorem get?_ofList {items : List (κ × α)} (h : (items.map Prod.fst).Nodup) :
    (ofList items).get? key = some value ↔ (key, value) ∈ items := by
  induction items using List.reverseRecOn with
  | nil => simp [ofList]
  | append_singleton items p ih =>
    obtain ⟨k, v⟩ := p
    rw [List.map_append, List.nodup_append'] at h
    have hk : k ∉ items.map Prod.fst := fun hmem => h.2.2 hmem (by simp)
    rw [ofList, List.foldl_append, List.foldl_cons, List.foldl_nil, ← ofList, get?_set]
    by_cases hkey : key = k
    · subst hkey
      have hno : (key, value) ∉ items := fun hmem => hk (List.mem_map.mpr ⟨_, hmem, rfl⟩)
      rw [Function.update_self]
      simp [hno, eq_comm]
    · rw [Function.update_of_ne hkey, ih h.1]
      simp [hkey]

theorem values_eq (d : PyDict κ α) : d.values = d.keys.filterMap d.get? := by
  rw [values, keys, List.filterMap_map, ← List.filterMap_eq_map]
  apply List.filterMap_congr
  intro p hp
  exact (get?_eq_some_iff.mpr hp).symm

theorem filter_values {d : PyDict κ α} {keyOf : α → κ} (h : ∀ p ∈ d.items, keyOf p.2 = p.1)
    (key : κ) : d.values.filter (keyOf · = key) = (d.get? key).toList := by
  have hdistinct := d.distinct
  rw [values, get?]
  generalize d.items = items at h hdistinct
  induction items with
  | nil => rfl
  | cons p items ih =>
    obtain ⟨hfirst, hrest⟩ := List.forall_mem_cons.mp h
    obtain ⟨hnotMem, hdistinct⟩ := List.nodup_cons.mp hdistinct
    rw [List.map_cons, List.filter_cons, hfirst, List.find?_cons]
    by_cases hkey : p.1 = key
    · have hnone : (items.map Prod.snd).filter (keyOf · = key) = [] := by
        rw [List.filter_eq_nil_iff]
        intro v hv heq
        obtain ⟨q, hq, rfl⟩ := List.mem_map.mp hv
        apply hnotMem
        rw [hkey, ← of_decide_eq_true heq, hrest q hq]
        exact List.mem_map_of_mem hq
      simp [hkey, hnone]
    · simpa [hkey] using ih hrest hdistinct

end PyDict
end CanSniffer.Library
