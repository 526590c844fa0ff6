import CanSniffer.AggregatorRuns

namespace CanSniffer.AlertVisibility

open Library Models AlertManager DiagnosticsAggregator

variable {mgr : AlertManager} {key : String} {ref : Nat}

/-- The snapshot's list of alerts shows an object. -/
def Visible (mgr : AlertManager) (ref : Nat) : Prop := ref ∈ (shownAlerts mgr).map Prod.fst

/-- The number of unresolved alerts whose keys were first set after a key. -/
def laterActive (mgr : AlertManager) (key : String) : Nat :=
  (mgr.active.keys.dropWhile (· ≠ key)).tail.countP fun k => (mgr.activeObject k).isSome

theorem existing_key {k : String} {a b : Alert} (h : mgr.existing key = some (ref, a))
    (h' : mgr.existing k = some (ref, b)) : k = key := by
  obtain ⟨-, ha, hkey⟩ := existing_spec h
  obtain ⟨-, hb, hk⟩ := existing_spec h'
  rw [ha] at hb
  cases hb
  exact hk.symm.trans hkey

theorem visible_of_split {a : Alert} (hobj : mgr.activeObject key = some (ref, a))
    {pre post : List String} (hkeys : mgr.active.keys = pre ++ key :: post) :
    Visible mgr ref ↔ post.countP (fun k => (mgr.activeObject k).isSome) < 20 := by
  have hnodup : (pre ++ key :: post).Nodup := hkeys ▸ mgr.active.distinct
  have hpost : key ∉ post := (List.nodup_cons.mp (List.nodup_append'.mp hnodup).2.1).1
  have hnot : (ref, a) ∉ post.filterMap mgr.activeObject := by
    intro hmem
    obtain ⟨k, hk, hk'⟩ := List.mem_filterMap.mp hmem
    exact hpost (existing_key (activeObject_existing hobj) (activeObject_existing hk') ▸ hk)
  have hmem : (ref, a) ∈ shownAlerts mgr ↔
      post.countP (fun k => (mgr.activeObject k).isSome) < 20 := by
    rw [shownAlerts, activeAlerts_eq, hkeys, List.filterMap_append, List.filterMap_cons_some hobj,
      Newest.mem_rtake_iff hnot, List.length_filterMap_eq_countP]
  rw [← hmem, Visible, List.mem_map]
  constructor
  · rintro ⟨⟨r, b⟩, hshown, rfl⟩
    -- an object of this number is this one
    have hin : (r, b) ∈ mgr.activeAlerts := List.mem_of_mem_drop hshown
    rw [activeAlerts_eq] at hin
    obtain ⟨k, -, hk⟩ := List.mem_filterMap.mp hin
    obtain ⟨-, hget, -⟩ := existing_spec (activeObject_existing hk)
    obtain ⟨-, hget', -⟩ := existing_spec (activeObject_existing hobj)
    rw [hget] at hget'
    cases hget'
    exact hshown
  · intro hshown
    exact ⟨_, hshown, rfl⟩

theorem submit_returned {alert : Alert} (hfresh : alert.resolved = false) {now : ℚ}
    (h : (mgr.submit alert now).1 = some ref) :
    ∃ a, a.resolved = false ∧
      (mgr.submit alert now).2.existing =
        Function.update mgr.existing (makeKey alert.triple) (some (ref, a)) ∧
      (mgr.submit alert now).2.active.keys =
        if makeKey alert.triple ∈ mgr.active.keys then mgr.active.keys
        else mgr.active.keys ++ [makeKey alert.triple] := by
  cases hact : mgr.activeAlert (makeKey alert.triple) with
  | none =>
    rw [submit_of_inactive hact] at h ⊢
    cases h
    refine ⟨alert, hfresh, existing_accept mgr alert, ?_⟩
    split_ifs with hkey
    · exact PyDict.keys_set_of_mem hkey _
    · exact PyDict.keys_set_of_notMem hkey _
  | some b =>
    obtain ⟨r, hex, hres⟩ := activeAlert_eq_some hact
    rw [submit_of_active hex hres] at h ⊢
    split_ifs at h ⊢ with hcool hkey
    · cases h
      exact ⟨refire now b, hres, existing_modify _ (triple_refire now) hex, rfl⟩
    · obtain ⟨hget, -, -⟩ := existing_spec hex
      exact absurd (PyDict.get?_isSome_iff.mp (Option.isSome_of_eq_some hget)) hkey

/-- What was let through is shown exactly if fewer than 20 active alerts come after its key. -/
theorem shown_iff {alert : Alert} (hfresh : alert.resolved = false) {now : ℚ}
    (h : (mgr.submit alert now).1 = some ref) :
    Visible (mgr.submit alert now).2 ref ↔ laterActive mgr (makeKey alert.triple) < 20 := by
  obtain ⟨a, hres, hex, hkeys⟩ := submit_returned hfresh h
  have hobj : (mgr.submit alert now).2.activeObject (makeKey alert.triple) = some (ref, a) := by
    rw [activeObject, hex, Function.update_self, Option.filter_some, if_pos (by simp [hres])]
  have hother : ∀ k, k ≠ makeKey alert.triple →
      (mgr.submit alert now).2.activeObject k = mgr.activeObject k := by
    intro k hk
    rw [activeObject, activeObject, hex, Function.update_of_ne hk]
  by_cases hmem : makeKey alert.triple ∈ mgr.active.keys
  · obtain ⟨pre, post, hsplit, hpre⟩ := List.eq_append_cons_of_mem hmem
    rw [if_pos hmem, hsplit] at hkeys
    have hnodup : (pre ++ makeKey alert.triple :: post).Nodup := hsplit ▸ mgr.active.distinct
    have hpost := (List.nodup_cons.mp (List.nodup_append'.mp hnodup).2.1).1
    have hlater : laterActive mgr (makeKey alert.triple) =
        post.countP fun k => (mgr.activeObject k).isSome := by
      rw [laterActive, hsplit, List.dropWhile_append_of_pos]
      · simp
      · intro k hk
        simpa using ne_of_mem_of_not_mem hk hpre
    rw [visible_of_split hobj hkeys, hlater]
    refine iff_of_eq (congrArg (· < 20) (List.countP_congr fun k hk => ?_))
    rw [hother k (ne_of_mem_of_not_mem hk hpost)]
  · rw [if_neg hmem] at hkeys
    have hnone : mgr.active.keys.dropWhile (· ≠ makeKey alert.triple) = [] := by
      rw [List.dropWhile_eq_nil_iff]
      intro k hk
      simpa using ne_of_mem_of_not_mem hk hmem
    rw [visible_of_split hobj hkeys, laterActive, hnone]
    rfl

/-- In every history, an alert that a submission returns is shown by a snapshot taken next exactly
if fewer than 20 unresolved alerts have keys that were first set after its own. -/
theorem visible_iff (db : BehavioralMonitor.Database) (boot : Nat → ℚ)
    (tecRec : Option TecRecPoller) (calls : List Call) (c : Call) (earlier later : List (Alert × ℚ))
    (alert : Alert) (now : ℚ) (ref : Nat)
    (hcall : ((start db boot tecRec).run calls).submissions c = earlier ++ (alert, now) :: later)
    (hreturned :
      ((submitAll ((start db boot tecRec).run calls).alerts earlier).submit alert now).1 =
        some ref) :
    let mgr := submitAll ((start db boot tecRec).run calls).alerts earlier
    Visible (mgr.submit alert now).2 ref ↔ laterActive mgr (makeKey alert.triple) < 20 := by
  have hmem : (alert, now) ∈ ((start db boot tecRec).run calls).submissions c := by
    rw [hcall]
    exact List.mem_append_right _ List.mem_cons_self
  have hfresh : alert.resolved = false :=
    submissions_fresh (fresh_run db boot tecRec calls) c (alert, now) hmem
  exact shown_iff hfresh hreturned

def emptyDatabase : BehavioralMonitor.Database := ⟨[], fun _ => none, fun _ _ => none⟩

def runaway (now : ℚ) : Call :=
  .pruEvent ⟨.dominantRunaway, 0, 0, 0, 1000000⟩ now now fun _ => now

def runawayAlert (ts : ℚ) : Alert where
  severity := .critical
  category := .dominantRunaway
  msg := "Bus stuck dominant for 1.0 ms"
  ts := ts

def stray (id : Nat) : Call :=
  .frame ⟨id, 0, [], false, none, 1, 0⟩ 1 (fun _ => 1) fun _ => 1

theorem visible_iff_runaway :
    let mgr := ((start emptyDatabase (fun _ => 0) none).run
      (runaway 1 :: (List.range 19).map stray)).alerts
    laterActive mgr (makeKey (runawayAlert 2).triple) = 19 ∧
      (Visible (mgr.submit (runawayAlert 2) 2).2 0 ↔
        laterActive mgr (makeKey (runawayAlert 2).triple) < 20) :=
  ⟨by decide +kernel, visible_iff emptyDatabase (fun _ => 0) none
    (runaway 1 :: (List.range 19).map stray) (runaway 2) [] [] (runawayAlert 2) 2 0
    (by decide +kernel) (by decide +kernel)⟩

/-- The bus gets stuck, 20 unknown identifiers appear, and the bus gets stuck again: the second
critical alert is hidden. -/
theorem runaway_hidden :
    let d := (start emptyDatabase (fun _ => 0) none).run (runaway 1 :: (List.range 20).map stray)
    d.submissions (runaway 2) = [(runawayAlert 2, 2)] ∧
      (d.alerts.submit (runawayAlert 2) 2).1 = some 0 ∧
      ¬ Visible (d.alerts.submit (runawayAlert 2) 2).2 0 := by
  refine ⟨?_, ?_, ?_⟩
  · decide +kernel
  · decide +kernel
  · intro h
    exact absurd h (by rw [Visible]; decide +kernel)

end CanSniffer.AlertVisibility
