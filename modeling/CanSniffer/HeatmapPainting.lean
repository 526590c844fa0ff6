import CanSniffer.HeatmapIds
import CanSniffer.Library.Painting
import CanSniffer.Library.PixelAxis

namespace CanSniffer.Graphs

open Library Library.Painting Library.PixelAxis

namespace Palette

def bg : String := "#1a1a1e"
def ok : String := "#4caf7d"
def warn : String := "#e8a838"
def critical : String := "#e05555"

end Palette

def heatmapColor (norm : ℚ) : String :=
  if norm ≤ 0 then Palette.bg
  else if norm < Binary64.round 0.15 then "#1a3a5c"
  else if norm < Binary64.round 0.35 then "#1e6fa8"
  else if norm < Binary64.round 0.55 then Palette.ok
  else if norm < Binary64.round 0.75 then Palette.warn
  else Palette.critical

namespace Heatmap

def ch : ℚ := 180
def labelW : ℚ := 62
def axisH : ℚ := 18

def cw (width : ℚ) : ℚ := max 200 (if width = 0 then 400 else width)

def plotW (cw : ℚ) : ℚ := Binary64.sub (Binary64.sub cw labelW) 4

def plotH : ℚ := Binary64.sub ch axisH

def maxCount (cols : List HeatmapCol) : Nat :=
  (cols.flatMap fun col => col.counts.values).foldl (fun m v => if m < v then v else m) 1

def cell (cw : ℚ) (cols : List HeatmapCol) (yIds : List String) (ci ri : Nat) : Rect × String :=
  let colW := Binary64.div (plotW cw) cols.length
  let rowH := Binary64.div plotH yIds.length
  let x := Binary64.add labelW (Binary64.mul ci colW)
  let count := ((cols[ci]?).map fun col => countOf col.counts (yIds.getD ri "")).getD 0
  (⟨⌊x⌋, ⌊Binary64.mul ri rowH⌋, ⌈colW⌉ + 1, ⌈rowH⌉ + 1⟩,
    heatmapColor (Binary64.div count (maxCount cols)))

end Heatmap

open Heatmap in
def renderHeatmap (g : Graphs) (width : ℚ) : Canvas String :=
  let canvas := fillRect (fun _ => none) ⟨0, 0, cw width, ch⟩ Palette.bg
  let yIds := g.heatmapIds.take heatmapIdsMax
  if g.heatmapCols = [] ∨ yIds = [] then canvas
  else fillAll canvas
    (grid g.heatmapCols.length yIds.length (cell (cw width) g.heatmapCols yIds))

namespace Heatmap

variable {width : ℚ} {cols : List HeatmapCol} {yIds : List String} {ci ri : Nat} {p : ℤ × ℤ}

theorem plotH_eq : plotH = 162 := by
  rw [plotH, Binary64.sub, show ch - axisH = (162 : ℕ) by norm_num [ch, axisH]]
  exact Binary64.round_natCast (by norm_num)

theorem cw_spec (hw : width < 2 ^ 39) : 200 ≤ cw width ∧ cw width < 2 ^ 39 := by
  refine ⟨le_max_left _ _, max_lt (by norm_num) ?_⟩
  split_ifs
  · norm_num
  · exact hw

theorem plotW_spec (hw : width < 2 ^ 39) : 120 ≤ plotW (cw width) ∧ plotW (cw width) < 2 ^ 39 := by
  obtain ⟨hlo, hhi⟩ := cw_spec hw
  obtain ⟨hleftLo, hleftHi⟩ := round_near (x := cw width - labelW) (by rw [labelW]; linarith)
    (by rw [labelW]; linarith)
  rw [plotW, Binary64.sub, Binary64.sub]
  rw [labelW] at hleftLo hleftHi ⊢
  obtain ⟨hplotLo, hplotHi⟩ := round_near (x := Binary64.round (cw width - 62) - 4) (by linarith)
    (by linarith)
  constructor
  · linarith
  · linarith

theorem cuts_cols (hw : width < 2 ^ 39) (hcols : cols ≠ []) (hmax : cols.length ≤ windowS) :
    Cuts labelW (plotW (cw width)) cols.length where
  pos := List.length_pos_of_ne_nil hcols
  parts := hmax.trans (by decide)
  nonneg := by linarith [(plotW_spec hw).1]
  short := (plotW_spec hw).2
  fromLeft := by norm_num [labelW]
  nearLeft := by norm_num [labelW]

theorem wide_cols (hw : width < 2 ^ 39) (hcols : cols ≠ []) (hmax : cols.length ≤ windowS) :
    2 ≤ plotW (cw width) / cols.length := by
  have hpos : (0 : ℚ) < cols.length := by exact_mod_cast List.length_pos_of_ne_nil hcols
  have hmax' : (cols.length : ℚ) ≤ 60 := by exact_mod_cast hmax
  rw [le_div_iff₀ hpos]
  linarith [(plotW_spec hw).1]

theorem cuts_rows (hids : yIds ≠ []) (hmax : yIds.length ≤ heatmapIdsMax) :
    Cuts 0 plotH yIds.length where
  pos := List.length_pos_of_ne_nil hids
  parts := hmax.trans (by decide)
  nonneg := by norm_num [plotH_eq]
  short := by norm_num [plotH_eq]
  fromLeft := le_rfl
  nearLeft := by norm_num

theorem wide_rows (hids : yIds ≠ []) (hmax : yIds.length ≤ heatmapIdsMax) :
    2 ≤ plotH / yIds.length := by
  have hpos : (0 : ℚ) < yIds.length := by exact_mod_cast List.length_pos_of_ne_nil hids
  have hmax' : (yIds.length : ℚ) ≤ 32 := by exact_mod_cast hmax
  rw [plotH_eq, le_div_iff₀ hpos]
  linarith

structure InCell (width : ℚ) (cols : List HeatmapCol) (yIds : List String) (ci ri : Nat)
    (p : ℤ × ℤ) : Prop where
  col : InPart labelW (plotW (cw width)) cols.length ci p.1
  row : InPart 0 plotH yIds.length ri p.2

theorem cell_rect (cols : List HeatmapCol) (yIds : List String) (ci ri : Nat) :
    (cell (cw width) cols yIds ci ri).1 =
      ⟨edge labelW (plotW (cw width)) cols.length ci, edge 0 plotH yIds.length ri,
        ⌈part (plotW (cw width)) cols.length⌉ + 1, ⌈part plotH yIds.length⌉ + 1⟩ := by
  have hrow : Binary64.mul ri (Binary64.div plotH yIds.length) = start 0 plotH yIds.length ri := by
    rw [start, part, Binary64.add, zero_add, Binary64.mul, Binary64.round_round]
  rw [cell]
  dsimp only
  rw [hrow]
  rfl

theorem covers_cell_iff : (cell (cw width) cols yIds ci ri).1.Covers p ↔
    edge labelW (plotW (cw width)) cols.length ci ≤ p.1 ∧
    p.1 + 1 ≤ edge labelW (plotW (cw width)) cols.length ci +
      (⌈part (plotW (cw width)) cols.length⌉ + 1) ∧
    edge 0 plotH yIds.length ri ≤ p.2 ∧
    p.2 + 1 ≤ edge 0 plotH yIds.length ri + (⌈part plotH yIds.length⌉ + 1) := by
  rw [cell_rect, Rect.Covers]
  dsimp only
  norm_cast

/-- The later cells that overlap a cell leave its part of the plot alone. -/
theorem fillAll_cells {canvas : Canvas String} (hw : width < 2 ^ 39) (hcols : cols ≠ [])
    (hmax : cols.length ≤ windowS) (hids : yIds ≠ []) (hmaxIds : yIds.length ≤ heatmapIdsMax)
    (hp : InCell width cols yIds ci ri p) :
    fillAll canvas (grid cols.length yIds.length (cell (cw width) cols yIds)) p =
      some (cell (cw width) cols yIds ci ri).2 := by
  have hc := cuts_cols hw hcols hmax
  have hr := cuts_rows hids hmaxIds
  apply fillAll_grid hp.col.part hp.row.part
  · exact covers_cell_iff.mpr ⟨hp.col.start, hc.covers hp.col, hp.row.start, hr.covers hp.row⟩
  · intro k hk hlt hcovers
    have hlater := hr.later (wide_rows hids hmaxIds) hp.row hk hlt
    exact absurd (covers_cell_iff.mp hcovers).2.2.1 (not_le.mpr hlater)
  · intro l k hl hlt _ hcovers
    have hlater := hc.later (wide_cols hw hcols hmax) hp.col hl hlt
    exact absurd (covers_cell_iff.mp hcovers).1 (not_le.mpr hlater)

theorem edge_cols_zero (len : ℚ) (n : Nat) : edge labelW len n 0 = 62 := by
  have hround : Binary64.round 62 = 62 := Binary64.round_natCast (n := 62) (by norm_num)
  rw [edge, start, Nat.cast_zero, Binary64.mul, zero_mul, Binary64.round_zero, Binary64.add,
    add_zero, labelW, hround]
  rfl

theorem edge_rows_zero (len : ℚ) (n : Nat) : edge 0 len n 0 = 0 := by
  rw [edge, start, Nat.cast_zero, Binary64.mul, zero_mul, Binary64.round_zero, Binary64.add,
    add_zero, Binary64.round_zero]
  rfl

def InPlot (width : ℚ) (p : ℤ × ℤ) : Prop :=
  62 ≤ p.1 ∧ (p.1 : ℚ) + 1 ≤ labelW + plotW (cw width) ∧ 0 ≤ p.2 ∧ (p.2 : ℚ) + 1 ≤ plotH

theorem exists_inCell (hw : width < 2 ^ 39) (hcols : cols ≠ []) (hmax : cols.length ≤ windowS)
    (hids : yIds ≠ []) (hmaxIds : yIds.length ≤ heatmapIdsMax) (hp : InPlot width p) :
    ∃ ci ri, InCell width cols yIds ci ri p := by
  obtain ⟨hleft, hright, htop, hbottom⟩ := hp
  obtain ⟨ci, hci⟩ := (cuts_cols hw hcols hmax).exists_inPart (by rwa [edge_cols_zero]) hright
  obtain ⟨ri, hri⟩ := (cuts_rows hids hmaxIds).exists_inPart (i := p.2) (by rwa [edge_rows_zero])
    (by rwa [zero_add])
  exact ⟨ci, ri, hci, hri⟩

end Heatmap

theorem heatmapIds_ne_empty (h : History) : ∀ id ∈ (run h).heatmapIds, id ≠ "" := by
  induction h using List.reverseRecOn with
  | nil => exact List.forall_mem_nil _
  | append_singleton h e ih =>
    rw [run_concat]
    obtain ⟨-, hkept⟩ | ⟨-, g', hg', hframes⟩ := graphsIngest_heatmapIds (run h) e.1 e.2
    · rw [hkept]
      exact ih
    · rw [hframes]
      refine List.foldlRecOn (motive := fun g : Graphs => ∀ id ∈ g.heatmapIds, id ≠ "") _ _
        (hg' ▸ ih) ?_
      intro g hg f _
      by_cases hid : f.arbId = ""
      · rw [ingestFrame, if_pos hid]
        exact hg
      · rw [ingestFrame_heatmapIds g hid]
        split_ifs
        · exact hg
        · intro id hmem
          obtain rfl | hold := SmallestKeys.mem_insertSmallest hmem
          · exact hid
          · exact hg id hold

open Heatmap

/-- The heatmap on the canvas: every pixel of the plot is in the cell of a second and an identifier,
every such cell has a pixel, and in each the colour is that of the number of frames with the
identifier in the second. -/
theorem heatmap_shows_counts {h : History} (hsorted : h.Pairwise fun d e => d.1 ≤ e.1)
    (hdone : FlushesDone h) (hcols : (run h).heatmapCols ≠ []) (hids : (run h).heatmapIds ≠ [])
    {width : ℚ} (hw : width < 2 ^ 39) :
    let cols := (run h).heatmapCols
    let yIds := (run h).heatmapIds.take heatmapIdsMax
    (∀ p, InPlot width p → ∃ ci ri, InCell width cols yIds ci ri p) ∧
    (∀ ci ri, ci < cols.length → ri < yIds.length → ∃ p, InCell width cols yIds ci ri p) ∧
    ∀ ci ri p, InCell width cols yIds ci ri p → ∃ col id, cols[ci]? = some col ∧
      yIds[ri]? = some id ∧ (run h).renderHeatmap width p =
        some (heatmapColor (Binary64.div (frameCount h id col.tsS) (maxCount cols))) := by
  intro cols yIds
  have hne : h ≠ [] := by
    rintro rfl
    exact hcols rfl
  have htracks := run_heatTracks hsorted hdone hne
  have hyIds : yIds ≠ [] := by
    rw [ne_eq, List.take_eq_nil_iff, not_or]
    exact ⟨by decide, hids⟩
  have hmaxIds : yIds.length ≤ heatmapIdsMax := List.length_take_le _ _
  have hc := cuts_cols hw hcols htracks.length
  have hr := cuts_rows hyIds hmaxIds
  refine ⟨fun p hp => exists_inCell hw hcols htracks.length hyIds hmaxIds hp, ?_, ?_⟩
  · intro ci ri hci hri
    exact ⟨(_, _), hc.inPart_edge (wide_cols hw hcols htracks.length) hci,
      hr.inPart_edge (wide_rows hyIds hmaxIds) hri⟩
  · intro ci ri p hp
    obtain ⟨col, hcol⟩ : ∃ col, cols[ci]? = some col :=
      ⟨_, List.getElem?_eq_getElem hp.col.part⟩
    obtain ⟨id, hid⟩ : ∃ id, yIds[ri]? = some id := ⟨_, List.getElem?_eq_getElem hp.row.part⟩
    have hcount := htracks.counts col (List.mem_of_getElem? hcol) id
      (heatmapIds_ne_empty h id (List.mem_of_mem_take (List.mem_of_getElem? hid)))
    refine ⟨col, id, hcol, hid, ?_⟩
    rw [renderHeatmap, if_neg (not_or.mpr ⟨hcols, hyIds⟩),
      fillAll_cells hw hcols htracks.length hyIds hmaxIds hp, cell]
    dsimp only
    rw [hcol, Option.map_some, Option.getD_some, List.getD_eq_getElem?_getD, hid,
      Option.getD_some, hcount]

theorem heatmap_shows_counts_oneSecond :
    let h : History := [(5, frameMsg "0x1"), (6, frameMsg "0x1")]
    let cols := (run h).heatmapCols
    let yIds := (run h).heatmapIds.take heatmapIdsMax
    (∀ p, InPlot 800 p → ∃ ci ri, InCell 800 cols yIds ci ri p) ∧
    (∀ ci ri, ci < cols.length → ri < yIds.length → ∃ p, InCell 800 cols yIds ci ri p) ∧
    ∀ ci ri p, InCell 800 cols yIds ci ri p → ∃ col id, cols[ci]? = some col ∧
      yIds[ri]? = some id ∧ (run h).renderHeatmap 800 p =
        some (heatmapColor (Binary64.div (frameCount h id col.tsS) (maxCount cols))) := by
  have hnil : FlushesDone [] := by
    intro before e after heq
    simp at heq
  have hone : FlushesDone ([] ++ [(5, frameMsg "0x1")]) :=
    flushesDone_concat.mpr ⟨hnil, fun hne => absurd rfl hne⟩
  have hdone : FlushesDone ([(5, frameMsg "0x1")] ++ [(6, frameMsg "0x1")]) :=
    flushesDone_concat.mpr ⟨hone, fun _ _ => ⟨by decide, by decide⟩⟩
  have hcols : (run [(5, frameMsg "0x1"), (6, frameMsg "0x1")]).heatmapCols ≠ [] := by
    rw [ne_eq, ← List.length_eq_zero_iff]
    decide +kernel
  exact heatmap_shows_counts (by simp) hdone hcols (by decide +kernel) (by norm_num)

end CanSniffer.Graphs
