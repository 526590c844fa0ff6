import CanSniffer.SequenceSvg

namespace CanSniffer.LabelMarkup

open Library Library.PyText Library.PyJson Library.XmlTags Models SequenceExport SequenceSvg

variable {str : Json → String} {format : String → Nat → Option String} {frames : List FrameDict}
  {pairs pairs' : List RawPair} {triggerIndex : Option Int} {ids : List Int} {kernelTs : List ℚ}

structure OnFrame (P : List Item → Prop) : Prop where
  start : ∀ width height, P (svgStart width height)
  head : P arrowHead
  row : ∀ width i, P (backgroundRow width i)
  trigger : ∀ width ti, P (triggerLine width ti)
  header : ∀ width, P (header width)
  time : P timeHeader
  id : ∀ seen aid, P (idHeader seen aid)
  guide : ∀ seen height aid, P (laneGuide seen height aid)
  dot : ∀ seen t0 i aid ts, ∀ line ∈ frameDot seen t0 i aid ts, P line
  stop : P [.stop "svg"]

theorem forall_svgLines_iff {P : List Item → Prop} (h : OnFrame P) (arrows : List Arrow) :
    (∀ line ∈ svgLines str ids kernelTs triggerIndex arrows, P line) ↔
      ∀ a ∈ arrows, P (arrowLine str (seenIds ids) ids kernelTs a) := by
  have htrigger (width : Int) : ∀ line ∈ ((triggerIndex.filter fun ti : Int =>
      0 < ti ∧ ti ≤ ids.length).map (triggerLine width)).toList, P line := by
    intro line hline
    obtain ⟨ti, -, rfl⟩ := Option.map_eq_some_iff.mp (Option.mem_toList.mp hline)
    exact h.trigger width ti
  have hdots : ∀ line ∈ (ids.zip kernelTs).zipIdx.flatMap fun x =>
      frameDot (seenIds ids) (kernelTs.headD 0) x.2 x.1.1 x.1.2, P line := by
    intro line hline
    obtain ⟨x, -, hx⟩ := List.mem_flatMap.mp hline
    exact h.dot _ _ _ _ _ line hx
  simp only [svgLines, List.forall_mem_append, List.forall_mem_cons, List.forall_mem_map]
  constructor
  · exact fun hall => hall.1.2
  · intro harrows
    exact ⟨⟨⟨⟨⟨⟨⟨⟨⟨h.start _ _, h.head, List.forall_mem_nil _⟩, fun i _ => h.row _ i⟩,
      htrigger _⟩, h.header _, h.time, List.forall_mem_nil _⟩, fun aid _ => h.id _ aid⟩,
      fun aid _ => h.guide _ _ aid⟩, hdots⟩, harrows⟩, h.stop, List.forall_mem_nil _⟩

theorem clean_frame : OnFrame fun line => ∀ item ∈ line, item.clean where
  start width height := by
    simp only [svgStart, List.forall_mem_cons, Item.clean, List.all_cons, cleanAttr_intText]
    decide
  head := by decide
  row width i := by
    simp only [backgroundRow, List.forall_mem_cons, Item.clean, List.all_cons, cleanAttr_intText]
    split_ifs <;> decide
  trigger width ti := by
    simp only [triggerLine, List.forall_mem_cons, Item.clean, List.all_cons, cleanAttr_intText]
    decide
  header width := by
    simp only [header, List.forall_mem_cons, Item.clean, List.all_cons, cleanAttr_intText]
    decide
  time := by decide
  id seen aid := by
    simp only [idHeader, List.forall_mem_cons, Item.clean, List.all_cons, cleanAttr_intText,
      cleanAttr_idColor]
    decide
  guide seen height aid := by
    simp only [laneGuide, List.forall_mem_cons, Item.clean, List.all_cons, cleanAttr_intText]
    decide
  dot seen t0 i aid ts := by
    simp only [frameDot, List.forall_mem_cons, Item.clean, List.all_cons, cleanAttr_intText,
      cleanAttr_idColor]
    decide
  stop := by decide

theorem clean_arrowLine (seen : List Int) (a : Arrow) :
    ∀ item ∈ arrowLine str seen ids kernelTs a, item.clean := by
  simp only [arrowLine, List.forall_mem_cons, Item.clean, List.all_cons, cleanAttr_intText]
  decide

theorem clean_svgLines (arrows : List Arrow) :
    ∀ line ∈ svgLines str ids kernelTs triggerIndex arrows, ∀ item ∈ line, item.clean :=
  (forall_svgLines_iff clean_frame arrows).mpr fun a _ => clean_arrowLine _ a

theorem plain_hexInt (n : Int) : Plain ("0x" ++ hexInt n).toList := by
  rw [String.toList_append, plain_append]
  refine ⟨by decide, ?_, ?_⟩
  all_goals
    intro h
    exact absurd (mem_hexInt h) (by decide)

theorem plain_fixed (digits : Nat) (x : ℚ) : Plain (fixed digits x).toList := by
  constructor
  all_goals
    intro h
    exact absurd (mem_fixed h) (by decide)

theorem plain_frame : OnFrame fun line => ∀ item ∈ line, Plain item.chars where
  start width height := by
    simp only [svgStart, List.forall_mem_cons, Item.chars]
    decide
  head := by decide
  row width i := by
    simp only [backgroundRow, List.forall_mem_cons, Item.chars]
    decide
  trigger width ti := by
    simp only [triggerLine, List.forall_mem_cons, Item.chars]
    decide
  header width := by
    simp only [header, List.forall_mem_cons, Item.chars]
    decide
  time := by decide
  id seen aid := by
    simp only [idHeader, List.forall_mem_cons, Item.chars]
    exact ⟨by decide, plain_hexInt aid, by decide, List.forall_mem_nil _⟩
  guide seen height aid := by
    simp only [laneGuide, List.forall_mem_cons, Item.chars]
    decide
  dot seen t0 i aid ts := by
    simp only [frameDot, List.forall_mem_cons, Item.chars]
    exact ⟨⟨by decide, plain_fixed 1 _, by decide, List.forall_mem_nil _⟩,
      ⟨by decide, List.forall_mem_nil _⟩, List.forall_mem_nil _⟩
  stop := by decide

theorem plain_arrowLine_iff (seen : List Int) (a : Arrow) :
    (∀ item ∈ arrowLine str seen ids kernelTs a, Plain item.chars) ↔
      Plain (labelText str a.label).toList := by
  have hlatency (x : ℚ) : Plain (" " ++ fixed 0 x ++ "µs").toList := by
    rw [String.toList_append, String.toList_append, plain_append, plain_append]
    exact ⟨⟨by decide, plain_fixed 0 x⟩, by decide⟩
  simp only [arrowLine, List.forall_mem_cons, Item.chars]
  exact ⟨fun h => h.2.2.1,
    fun h => ⟨by decide, by decide, h, hlatency _, by decide, List.forall_mem_nil _⟩⟩

theorem plain_svgLines_iff (arrows : List Arrow) :
    (∀ line ∈ svgLines str ids kernelTs triggerIndex arrows, ∀ item ∈ line, Plain item.chars) ↔
      ∀ a ∈ arrows, Plain (labelText str a.label).toList := by
  rw [forall_svgLines_iff plain_frame]
  simp only [plain_arrowLine_iff]

theorem tags_arrowLine (seen : List Int) (a : Arrow) :
    (arrowLine str seen ids kernelTs a).filterMap Item.tag? =
      [⟨"line", .empty⟩, ⟨"text", .opening⟩, ⟨"text", .closing⟩] := rfl

theorem tags_svgLines {arrows arrows' : List Arrow} (h : arrows.length = arrows'.length) :
    (svgLines str ids kernelTs triggerIndex arrows).flatMap (List.filterMap Item.tag?) =
      (svgLines str ids kernelTs triggerIndex arrows').flatMap (List.filterMap Item.tag?) := by
  have harrows : (arrows.map (arrowLine str (seenIds ids) ids kernelTs)).map
      (List.filterMap Item.tag?) =
        (arrows'.map (arrowLine str (seenIds ids) ids kernelTs)).map
          (List.filterMap Item.tag?) := by
    simp only [List.map_map, Function.comp_def, tags_arrowLine, List.map_const', h]
  simp only [svgLines, List.flatMap_def, List.map_append, harrows]

theorem length_flatten_mapM {α β γ δ : Type} {f : α → Option (List γ)} {g : β → Option (List δ)}
    {xs : List α} {ys : List β}
    (h : List.Forall₂ (fun x y => ∀ as bs, f x = some as → g y = some bs → as.length = bs.length)
      xs ys) {ass : List (List γ)} {bss : List (List δ)} (hf : xs.mapM f = some ass)
    (hg : ys.mapM g = some bss) : ass.flatten.length = bss.flatten.length := by
  induction h generalizing ass bss with
  | nil =>
    cases hf
    cases hg
    rfl
  | cons hxy _ ih =>
    rw [List.mapM_cons] at hf hg
    obtain ⟨as, has, hf⟩ := Option.bind_eq_some_iff.mp hf
    obtain ⟨bs, hbs, hg⟩ := Option.bind_eq_some_iff.mp hg
    obtain ⟨ass', hass, hf⟩ := Option.bind_eq_some_iff.mp hf
    obtain ⟨bss', hbss, hg⟩ := Option.bind_eq_some_iff.mp hg
    cases hf
    cases hg
    rw [List.flatten_cons, List.flatten_cons, List.length_append, List.length_append,
      hxy as bs has hbs, ih hass hbss]

theorem length_rowArrows {pp pp' : RawPair} (h : unlabelled pp = unlabelled pp') {i : Nat}
    {fid : Int} {as bs : List Arrow} (has : rowArrows format ids pp i fid = some as)
    (hbs : rowArrows format ids pp' i fid = some bs) : as.length = bs.length := by
  obtain ⟨hreq, hresp, hreqBase, hrespBase⟩ : pp.requestId = pp'.requestId ∧
      pp.responseId = pp'.responseId ∧ pp.requestBase = pp'.requestBase ∧
        pp.responseBase = pp'.responseBase := by
    simpa [unlabelled] using h
  simp only [rowArrows, hreq, hresp, hreqBase, hrespBase] at has hbs
  by_cases hexplicit : pp'.requestId = some fid
  · rw [if_pos hexplicit] at has hbs
    cases hcase : pp'.responseId with
    | none =>
      rw [hcase] at has hbs
      exact congrArg List.length (Option.some.inj (has.symm.trans hbs))
    | some respId =>
      rw [hcase] at has hbs
      cases has
      cases hbs
      cases partner ids i fun gid => gid = respId <;> rfl
  rw [if_neg hexplicit] at has hbs
  by_cases hpattern : pp'.requestBase.getD 0 ≠ 0 ∧ idBase fid = pp'.requestBase.getD 0
  · rw [if_pos hpattern] at has hbs
    cases hcase : partner ids i fun gid =>
      idBase gid = pp'.responseBase.getD 0 ∧ idNode gid = idNode fid with
    | none =>
      rw [hcase] at has hbs
      exact congrArg List.length (Option.some.inj (has.symm.trans hbs))
    | some j =>
      rw [hcase] at has hbs
      obtain ⟨label, -, rfl⟩ := Option.map_eq_some_iff.mp has
      obtain ⟨label', -, rfl⟩ := Option.map_eq_some_iff.mp hbs
      rfl
  · rw [if_neg hpattern] at has hbs
    exact congrArg List.length (Option.some.inj (has.symm.trans hbs))

theorem length_pairArrows {pp pp' : RawPair} (h : unlabelled pp = unlabelled pp')
    {as bs : List Arrow} (has : pairArrows format ids pp = some as)
    (hbs : pairArrows format ids pp' = some bs) : as.length = bs.length := by
  obtain ⟨ass, hass, rfl⟩ := Option.map_eq_some_iff.mp has
  obtain ⟨bss, hbss, rfl⟩ := Option.map_eq_some_iff.mp hbs
  exact length_flatten_mapM
    (List.forall₂_same.mpr fun x _ as bs has hbs => length_rowArrows h has hbs) hass hbss

theorem length_arrows (h : pairs.map unlabelled = pairs'.map unlabelled)
    {ass bss : List (List Arrow)} (hass : pairs.mapM (pairArrows format ids) = some ass)
    (hbss : pairs'.mapM (pairArrows format ids) = some bss) :
    ass.flatten.length = bss.flatten.length := by
  rw [← List.forall₂_eq_eq_eq, List.forall₂_map_left_iff, List.forall₂_map_right_iff] at h
  exact length_flatten_mapM (h.imp fun pp pp' hpp as bs has hbs => length_pairArrows hpp has hbs)
    hass hbss

variable {out out' : String}

def document (str : Json → String) (ids : List Int) (kernelTs : List ℚ) (triggerIndex : Option Int)
    (arrows : List Arrow) : List Item :=
  [Item.text "\n"].intercalate (svgLines str ids kernelTs triggerIndex arrows)

theorem clean_document (arrows : List Arrow) :
    ∀ item ∈ document str ids kernelTs triggerIndex arrows, item.clean :=
  (forall_mem_intercalate (P := (Item.clean ·)) rfl _).mpr (clean_svgLines arrows)

theorem plain_document_iff (arrows : List Arrow) :
    (∀ item ∈ document str ids kernelTs triggerIndex arrows, Plain item.chars) ↔
      ∀ a ∈ arrows, Plain (labelText str a.label).toList := by
  rw [document, forall_mem_intercalate (by decide), plain_svgLines_iff]

theorem tags_document {arrows arrows' : List Arrow} (h : arrows.length = arrows'.length) :
    (document str ids kernelTs triggerIndex arrows).filterMap Item.tag? =
      (document str ids kernelTs triggerIndex arrows').filterMap Item.tag? := by
  rw [document, document, filterMap_intercalate rfl, filterMap_intercalate rfl, tags_svgLines h]

theorem text_of_frames (hframes : frames ≠ [])
    (hout : exportSvgText str format frames pairs triggerIndex = some out) :
    ∃ ids arrows, (frames.mapM fun f => intBase16 f.arbId) = some ids ∧
      pairs.mapM (pairArrows format ids) = some arrows ∧
      drawnLabels str format frames pairs = arrows.flatten.map (fun a => labelText str a.label) ∧
      out = renderAll
        (document str ids (frames.map FrameDict.kernelTs) triggerIndex arrows.flatten) ∧
      captions str format frames pairs triggerIndex =
        some ((document str ids (frames.map FrameDict.kernelTs) triggerIndex
          arrows.flatten).flatMap Item.chars) := by
  rw [exportSvgText, if_neg hframes] at hout
  obtain ⟨lines, hlines, rfl⟩ := Option.map_eq_some_iff.mp hout
  have hcaptions : captions str format frames pairs triggerIndex =
      some (([Item.text "\n"].intercalate lines).flatMap Item.chars) := by
    rw [captions, if_neg hframes, hlines]
    rfl
  obtain ⟨ids, hids, hlines⟩ := Option.bind_eq_some_iff.mp hlines
  obtain ⟨arrows, harrows, hlines⟩ := Option.bind_eq_some_iff.mp hlines
  cases hlines
  have hpairs : pairs.mapM (pairArrows format ids) = some arrows := by
    rw [exportSvg, hids] at harrows
    exact harrows
  refine ⟨ids, arrows, hids, hpairs, ?_, renderAll_intercalate _ _, hcaptions⟩
  rw [drawnLabels, harrows]
  rfl

theorem drawnLabels_nil : drawnLabels str format [] pairs = [] := by
  have harrows : exportSvg format [] pairs = some (pairs.map fun _ => []) :=
    ForLoop.mapM_eq_some_map fun _ _ => rfl
  rw [drawnLabels, harrows]
  simp

theorem characterData_noFrames : characterData noFrames = some "No frames".toList := by
  decide +kernel

/-- Labels leave the tags as they are and are read as text exactly if those that are drawn have
neither `<` nor `&`. -/
theorem labels_inert_iff (str : Json → String) (format : String → Nat → Option String)
    (frames : List FrameDict) (triggerIndex : Option Int) {pairs pairs' : List RawPair}
    {out out' : String} (hsame : pairs.map unlabelled = pairs'.map unlabelled)
    (hout : exportSvgText str format frames pairs triggerIndex = some out)
    (hout' : exportSvgText str format frames pairs' triggerIndex = some out') :
    (tags out = tags out' ∧
      characterData out = captions str format frames pairs triggerIndex ∧
      characterData out' = captions str format frames pairs' triggerIndex) ↔
    ∀ label ∈ drawnLabels str format frames pairs ++ drawnLabels str format frames pairs',
      Plain label.toList := by
  by_cases hframes : frames = []
  · subst hframes
    cases hout
    cases hout'
    rw [drawnLabels_nil, drawnLabels_nil, List.nil_append]
    exact iff_of_true ⟨rfl, characterData_noFrames, characterData_noFrames⟩
      (List.forall_mem_nil _)
  obtain ⟨ids, arrows, hids, harrows, hlabels, rfl, hcaptions⟩ := text_of_frames hframes hout
  obtain ⟨ids', arrows', hids', harrows', hlabels', rfl, hcaptions'⟩ := text_of_frames hframes hout'
  rw [hids] at hids'
  cases hids'
  rw [hcaptions, hcaptions', characterData_renderAll_iff (clean_document _),
    characterData_renderAll_iff (clean_document _), plain_document_iff, plain_document_iff, hlabels,
    hlabels', List.forall_mem_append, List.forall_mem_map, List.forall_mem_map]
  refine ⟨And.right, fun hplain => ⟨?_, hplain⟩⟩
  rw [tags_renderAll (clean_document _) ((plain_document_iff _).mpr hplain.1),
    tags_renderAll (clean_document _) ((plain_document_iff _).mpr hplain.2),
    tags_document (length_arrows hsame harrows harrows')]

def frame (arbId : String) : FrameDict := ⟨arbId, 0, "", false, none, 0, 0⟩

def labelled (label : String) : RawPair :=
  { requestId := some 0x601, responseId := some 0x581, label := some (.str label) }

def exchangeDocument (label : String) : List Item :=
  document (fun _ => "") [0x601, 0x581] [0, 0] none [⟨0, 1, .str label⟩]

theorem exchange_text (label : String) :
    exportSvgText (fun _ => "") LatencyPairs.formatDefault [frame "0x601", frame "0x581"]
      [labelled label] none = some (renderAll (exchangeDocument label)) :=
  congrArg some (renderAll_intercalate _ _)

theorem labels_inert_exchange :
    (tags (renderAll (exchangeDocument "SDO")) = tags (renderAll (exchangeDocument "a < b")) ∧
      characterData (renderAll (exchangeDocument "SDO")) = captions (fun _ => "")
        LatencyPairs.formatDefault [frame "0x601", frame "0x581"] [labelled "SDO"] none ∧
      characterData (renderAll (exchangeDocument "a < b")) = captions (fun _ => "")
        LatencyPairs.formatDefault [frame "0x601", frame "0x581"] [labelled "a < b"] none) ↔
    ∀ label ∈ drawnLabels (fun _ => "") LatencyPairs.formatDefault
        [frame "0x601", frame "0x581"] [labelled "SDO"] ++
      drawnLabels (fun _ => "") LatencyPairs.formatDefault
        [frame "0x601", frame "0x581"] [labelled "a < b"],
      Plain label.toList :=
  labels_inert_iff (fun _ => "") LatencyPairs.formatDefault [frame "0x601", frame "0x581"] none
    rfl (exchange_text "SDO") (exchange_text "a < b")

def closingLabel : String := "</text><script/><text>"

/-- What is read of an item when it is the label or plain. -/
def readClosing (item : Item) : List Piece :=
  if item.chars = closingLabel.toList then
    [.tag ⟨"text", .closing⟩, .tag ⟨"script", .empty⟩, .tag ⟨"text", .opening⟩]
  else item.pieces

theorem scan_closing {item : Item} (hitem : item ∈ exchangeDocument closingLabel) :
    scan .content item.render.toList = some (.content, readClosing item) := by
  have htexts : ∀ item ∈ exchangeDocument closingLabel,
      item.chars = closingLabel.toList ∨ Plain item.chars := by
    decide +kernel
  rw [readClosing]
  split_ifs with hclosing
  · cases item with
    | text s =>
      obtain rfl : s = closingLabel := String.toList_inj.mp hclosing
      decide +kernel
    | _ =>
      have hempty : [] = closingLabel.toList := hclosing
      exact absurd hempty (by decide)
  · exact scan_render (clean_document _ item hitem) ((htexts item hitem).resolve_left hclosing)

/-- A label that ends the text it is in puts an element of its own into the diagram. -/
theorem label_adds_element : ¬ ∀ (str : Json → String) (format : String → Nat → Option String)
    (frames : List FrameDict) (triggerIndex : Option Int) (pairs pairs' : List RawPair)
    (out out' : String), pairs.map unlabelled = pairs'.map unlabelled →
    exportSvgText str format frames pairs triggerIndex = some out →
    exportSvgText str format frames pairs' triggerIndex = some out' → tags out = tags out' := by
  intro h
  have heq := h _ _ _ none [labelled "SDO"] [labelled closingLabel] _ _ rfl
    (exchange_text "SDO") (exchange_text closingLabel)
  have hplain : tags (renderAll (exchangeDocument "SDO")) =
      some ((exchangeDocument "SDO").filterMap Item.tag?) :=
    tags_renderAll (clean_document _) (by decide +kernel)
  have hclosing : tags (renderAll (exchangeDocument closingLabel)) =
      some (((exchangeDocument closingLabel).flatMap readClosing).filterMap Piece.tag?) := by
    rw [tags, lex_renderAll fun item hitem => scan_closing hitem, Option.map_some]
  rw [hplain, hclosing] at heq
  exact absurd (congrArg (Option.map List.length) heq) (by decide +kernel)

end CanSniffer.LabelMarkup
