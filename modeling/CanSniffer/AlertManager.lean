import CanSniffer.Library.PyDict
import CanSniffer.Library.PyText
import CanSniffer.Models

namespace CanSniffer

open Library Library.PyText Models

namespace Models

@[ext] structure Triple where
  category : AlertCategory
  canId : Option Int
  signalName : Option String
  deriving DecidableEq, Repr

def Alert.triple (a : Alert) : Triple := ⟨a.category, a.canId, a.signalName⟩

def Triple.Named (t : Triple) : Prop := t.signalName ≠ some "None"

instance (t : Triple) : Decidable t.Named := inferInstanceAs (Decidable (_ ≠ _))

end Models

namespace AlertManager

def makeKey (t : Triple) : String :=
  t.category.value ++ ":" ++ strOption toString t.canId ++ ":" ++ strOption id t.signalName

theorem value_injective : Function.Injective AlertCategory.value := by
  intro a b h
  cases a <;> cases b <;> first | rfl | exact absurd h (by decide)

theorem colon_notMem_value (c : AlertCategory) : ':' ∉ c.value.toList := by
  cases c <;> decide

theorem colon_notMem_canId (canId : Option Int) : ':' ∉ (strOption toString canId).toList := by
  cases canId with
  | none => decide
  | some n =>
    intro h
    obtain h | h := mem_intText h
    · exact absurd h (by decide)
    · exact absurd h (by decide)

/-- Triples with the same key are equal, a signal named None apart. -/
theorem makeKey_inj {t u : Triple} (ht : t.Named) (hu : u.Named) (h : makeKey t = makeKey u) :
    t = u := by
  have hl := congrArg String.toList h
  simp only [makeKey, String.toList_append, List.append_assoc] at hl
  obtain ⟨hcat, hrest⟩ := append_sep_inj (colon_notMem_value _) (colon_notMem_value _) hl
  obtain ⟨hid, hsig⟩ := append_sep_inj (colon_notMem_canId _) (colon_notMem_canId _) hrest
  have hcat' : t.category = u.category := value_injective (String.toList_inj.mp hcat)
  have hid' : t.canId = u.canId :=
    strOption_injective intText_injective (intText_ne_none t.canId) (intText_ne_none u.canId)
      (String.toList_inj.mp hid)
  have hsig' : t.signalName = u.signalName :=
    strOption_injective Function.injective_id (by rw [Option.map_id]; exact ht)
      (by rw [Option.map_id]; exact hu) (String.toList_inj.mp hsig)
  exact Triple.ext hcat' hid' hsig'

end AlertManager

open AlertManager in
/-- An alert object is referred to by its position in the history, where it stays when it is
replaced in the map. -/
structure AlertManager where
  active : PyDict String Nat
  history : List Alert
  held : ∀ key ref, active.get? key = some ref →
    ∃ a, history[ref]? = some a ∧ makeKey a.triple = key

namespace AlertManager

def init : AlertManager := ⟨PyDict.empty, [], by simp⟩

def existing (mgr : AlertManager) (key : String) : Option (Nat × Alert) :=
  (mgr.active.get? key).bind fun ref => mgr.history[ref]?.map fun a => (ref, a)

def modify (mgr : AlertManager) (ref : Nat) (f : Alert → Alert)
    (hf : ∀ a, (f a).triple = a.triple) : AlertManager where
  active := mgr.active
  history := mgr.history.modify ref f
  held := by
    intro key r h
    obtain ⟨a, ha, hkey⟩ := mgr.held key r h
    refine ⟨if ref = r then f a else a, ?_, ?_⟩
    · rw [List.getElem?_modify, ha]
      split_ifs <;> rfl
    · split_ifs
      · rw [hf, hkey]
      · exact hkey

def accept (mgr : AlertManager) (alert : Alert) : AlertManager where
  active := mgr.active.set (makeKey alert.triple) mgr.history.length
  history := mgr.history ++ [alert]
  held := by
    intro key r h
    rw [PyDict.get?_set] at h
    by_cases hkey : key = makeKey alert.triple
    · subst hkey
      rw [Function.update_self] at h
      cases h
      exact ⟨alert, by simp, rfl⟩
    · rw [Function.update_of_ne hkey] at h
      obtain ⟨a, ha, hk⟩ := mgr.held key r h
      have hlt := (List.getElem?_eq_some_iff.mp ha).1
      exact ⟨a, by rw [List.getElem?_append_left hlt, ha], hk⟩

def countUp (a : Alert) : Alert := { a with count := a.count + 1 }

def refire (now : ℚ) (a : Alert) : Alert := { a with ts := now, count := a.count + 1 }

def close (now : ℚ) (a : Alert) : Alert := { a with resolved := true, resolvedTs := some now }

theorem triple_countUp (a : Alert) : (countUp a).triple = a.triple := rfl

theorem triple_refire (now : ℚ) (a : Alert) : (refire now a).triple = a.triple := rfl

theorem triple_close (now : ℚ) (a : Alert) : (close now a).triple = a.triple := rfl

/-- `now` is the value of `time.time()`; the answer is the object returned. -/
def submit (mgr : AlertManager) (alert : Alert) (now : ℚ) : Option Nat × AlertManager :=
  match mgr.existing (makeKey alert.triple) with
  | some (ref, existing) =>
    if existing.resolved = false then
      let cooldown := alertCooldownS existing.severity
      if Binary64.sub now existing.ts < cooldown then
        (none, mgr.modify ref countUp triple_countUp)
      else (some ref, mgr.modify ref (refire now) (triple_refire now))
    else (some mgr.history.length, mgr.accept alert)
  | none => (some mgr.history.length, mgr.accept alert)

def resolve (mgr : AlertManager) (t : Triple) (now : ℚ) : AlertManager :=
  match mgr.existing (makeKey t) with
  | some (ref, alert) =>
    if alert.resolved = false then mgr.modify ref (close now) (triple_close now) else mgr
  | none => mgr

/-- The unresolved alert under a key, one of `active_alerts()`. -/
def activeAlert (mgr : AlertManager) (key : String) : Option Alert :=
  ((mgr.existing key).map Prod.snd).filter fun a => a.resolved = false

/-- The alert objects of `active_alerts()`, each with what it holds. -/
def activeAlerts (mgr : AlertManager) : List (Nat × Alert) :=
  (mgr.active.values.filterMap fun ref => mgr.history[ref]?.map fun a => (ref, a)).filter
    fun p => !p.2.resolved

variable {mgr : AlertManager} {key : String} {ref : Nat} {a : Alert}

theorem existing_spec (h : mgr.existing key = some (ref, a)) :
    mgr.active.get? key = some ref ∧ mgr.history[ref]? = some a ∧ makeKey a.triple = key := by
  obtain ⟨r, hr, hmap⟩ := Option.bind_eq_some_iff.mp h
  obtain ⟨b, hb, heq⟩ := Option.map_eq_some_iff.mp hmap
  cases heq
  obtain ⟨c, hc, hkey⟩ := mgr.held key ref hr
  rw [hb] at hc
  cases hc
  exact ⟨hr, hb, hkey⟩

theorem existing_modify (f : Alert → Alert) (hf : ∀ a, (f a).triple = a.triple)
    (h : mgr.existing key = some (ref, a)) :
    (mgr.modify ref f hf).existing = Function.update mgr.existing key (some (ref, f a)) := by
  funext k
  by_cases hk : k = key
  · subst hk
    obtain ⟨hact, hget, -⟩ := existing_spec h
    rw [Function.update_self]
    simp [existing, modify, hact, hget]
  · rw [Function.update_of_ne hk]
    cases hact : mgr.active.get? k with
    | none => simp [existing, modify, hact]
    | some r =>
      -- two keys never share an object
      have hne : ref ≠ r := by
        rintro rfl
        obtain ⟨-, hget, hkey⟩ := existing_spec h
        obtain ⟨b, hb, hkeyb⟩ := mgr.held k ref hact
        rw [hget] at hb
        cases hb
        exact hk (hkeyb.symm.trans hkey)
      simp [existing, modify, hact, List.getElem?_modify, hne, Function.comp_def]

theorem existing_accept (mgr : AlertManager) (alert : Alert) :
    (mgr.accept alert).existing =
      Function.update mgr.existing (makeKey alert.triple) (some (mgr.history.length, alert)) := by
  funext k
  by_cases hk : k = makeKey alert.triple
  · subst hk
    rw [Function.update_self]
    simp [existing, accept, PyDict.get?_set]
  · rw [Function.update_of_ne hk]
    cases hact : mgr.active.get? k with
    | none => simp [existing, accept, PyDict.get?_set, hk, hact]
    | some r =>
      obtain ⟨b, hb, -⟩ := mgr.held k r hact
      have hlt := (List.getElem?_eq_some_iff.mp hb).1
      simp [existing, accept, PyDict.get?_set, hk, hact, List.getElem?_append_left hlt]

theorem activeAlert_of_existing {mgr' : AlertManager} {p : Nat × Alert}
    (h : mgr'.existing = Function.update mgr.existing key (some p)) :
    mgr'.activeAlert = Function.update mgr.activeAlert key
      (if p.2.resolved = false then some p.2 else none) := by
  funext k
  by_cases hk : k = key
  · subst hk
    rw [Function.update_self, activeAlert, h, Function.update_self]
    simp [Option.filter]
  · rw [Function.update_of_ne hk, activeAlert, h, Function.update_of_ne hk, activeAlert]

theorem activeAlert_eq_some (h : mgr.activeAlert key = some a) :
    ∃ ref, mgr.existing key = some (ref, a) ∧ a.resolved = false := by
  obtain ⟨hmap, hres⟩ := Option.filter_eq_some_iff.mp h
  obtain ⟨⟨ref, b⟩, hp, rfl⟩ := Option.map_eq_some_iff.mp hmap
  exact ⟨ref, hp, by simpa using hres⟩

theorem activeAlert_eq_none (h : mgr.activeAlert key = none) :
    mgr.existing key = none ∨ ∃ p, mgr.existing key = some p ∧ p.2.resolved = true := by
  cases hex : mgr.existing key with
  | none => exact Or.inl rfl
  | some p =>
    rw [activeAlert, hex, Option.map_some, Option.filter_eq_none_iff] at h
    exact Or.inr ⟨p, rfl, by simpa using h p.2 rfl⟩

def afterSubmit (alert : Alert) (now : ℚ) : Option Alert → Alert × Bool
  | none => (alert, true)
  | some a =>
    if Binary64.sub now a.ts < alertCooldownS a.severity then (countUp a, false)
    else (refire now a, true)

theorem submit_of_inactive {alert : Alert} {now : ℚ}
    (h : mgr.activeAlert (makeKey alert.triple) = none) :
    mgr.submit alert now = (some mgr.history.length, mgr.accept alert) := by
  obtain hex | ⟨p, hex, hres⟩ := activeAlert_eq_none h
  · simp [submit, hex]
  · simp [submit, hex, hres]

theorem submit_of_active {alert : Alert} {now : ℚ}
    (hex : mgr.existing (makeKey alert.triple) = some (ref, a)) (hres : a.resolved = false) :
    mgr.submit alert now =
      if Binary64.sub now a.ts < alertCooldownS a.severity then
        (none, mgr.modify ref countUp triple_countUp)
      else (some ref, mgr.modify ref (refire now) (triple_refire now)) := by
  simp [submit, hex, hres]

theorem submit_spec (mgr : AlertManager) {alert : Alert} (hfresh : alert.resolved = false)
    (now : ℚ) :
    let after := afterSubmit alert now (mgr.activeAlert (makeKey alert.triple))
    (mgr.submit alert now).1.isSome = after.2 ∧
      (mgr.submit alert now).2.activeAlert =
        Function.update mgr.activeAlert (makeKey alert.triple) (some after.1) := by
  cases hact : mgr.activeAlert (makeKey alert.triple) with
  | none =>
    rw [submit_of_inactive hact, activeAlert_of_existing (existing_accept mgr alert), if_pos hfresh]
    exact ⟨rfl, rfl⟩
  | some a =>
    obtain ⟨ref, hex, hres⟩ := activeAlert_eq_some hact
    rw [submit_of_active hex hres, afterSubmit]
    by_cases hcool : Binary64.sub now a.ts < alertCooldownS a.severity
    · rw [if_pos hcool, if_pos hcool]
      refine ⟨rfl, ?_⟩
      rw [activeAlert_of_existing (existing_modify _ triple_countUp hex)]
      exact congrArg _ (if_pos hres)
    · rw [if_neg hcool, if_neg hcool]
      refine ⟨rfl, ?_⟩
      rw [activeAlert_of_existing (existing_modify _ (triple_refire now) hex)]
      exact congrArg _ (if_pos hres)

theorem resolve_spec (mgr : AlertManager) (t : Triple) (now : ℚ) :
    (mgr.resolve t now).activeAlert = Function.update mgr.activeAlert (makeKey t) none := by
  cases hact : mgr.activeAlert (makeKey t) with
  | none =>
    have hsame : mgr.resolve t now = mgr := by
      obtain hex | ⟨p, hex, hres⟩ := activeAlert_eq_none hact
      · simp [resolve, hex]
      · simp [resolve, hex, hres]
    rw [hsame, ← hact, Function.update_eq_self]
  | some a =>
    obtain ⟨ref, hex, hres⟩ := activeAlert_eq_some hact
    have hclose : mgr.resolve t now = mgr.modify ref (close now) (triple_close now) := by
      simp [resolve, hex, hres]
    rw [hclose, activeAlert_of_existing (existing_modify _ (triple_close now) hex)]
    rfl

def activeObject (mgr : AlertManager) (key : String) : Option (Nat × Alert) :=
  (mgr.existing key).filter fun p => !p.2.resolved

theorem activeAlerts_eq (mgr : AlertManager) :
    mgr.activeAlerts = mgr.active.keys.filterMap mgr.activeObject := by
  rw [activeAlerts, PyDict.values_eq, List.filterMap_filterMap, List.filter_filterMap]
  rfl

theorem activeObject_existing {p : Nat × Alert} (h : mgr.activeObject key = some p) :
    mgr.existing key = some p :=
  (Option.filter_eq_some_iff.mp h).1

theorem activeAlert_eq (mgr : AlertManager) (key : String) :
    mgr.activeAlert key = (mgr.activeObject key).map Prod.snd := by
  rw [activeAlert, activeObject]
  cases mgr.existing key with
  | none => rfl
  | some p =>
    rw [Option.map_some, Option.filter_some, Option.filter_some]
    cases p.2.resolved <;> rfl

theorem mem_activeAlerts : (∃ ref, (ref, a) ∈ mgr.activeAlerts) ↔
    ∃ key, mgr.activeAlert key = some a := by
  simp only [activeAlerts_eq, List.mem_filterMap, activeAlert_eq, Option.map_eq_some_iff]
  constructor
  · rintro ⟨ref, key, -, h⟩
    exact ⟨key, _, h, rfl⟩
  · rintro ⟨key, ⟨ref, _⟩, h, rfl⟩
    obtain ⟨hget, -, -⟩ := existing_spec (activeObject_existing h)
    exact ⟨ref, key, PyDict.get?_isSome_iff.mp (Option.isSome_of_eq_some hget), h⟩

end AlertManager
end CanSniffer
