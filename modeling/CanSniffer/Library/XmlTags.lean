import Mathlib.Data.List.Basic
import Mathlib.Tactic

namespace CanSniffer.Library.XmlTags

-- The tags and the character data of a text, as a reader of XML takes it apart. That tags come in
-- pairs, what references stand for and a stray end of a CDATA section are not looked at.

inductive TagForm
  | opening | closing | empty
  deriving DecidableEq, Repr

structure Tag where
  name : String
  form : TagForm
  deriving DecidableEq, Repr

inductive Piece
  | tag (t : Tag)
  | char (c : Char)
  | reference (text : String)
  deriving DecidableEq, Repr

inductive Mode
  | content
  | reference (text : List Char)
  | opened
  | startName (name : List Char)
  | gap (name : List Char)
  | attrName (name : List Char)
  | attrEq (name : List Char)
  | attrValue (name : List Char)
  | quoted (name : List Char) (double : Bool)
  | quoteEnd (name : List Char)
  | slash (name : List Char)
  | stopOpened
  | stopName (name : List Char)
  | stopGap (name : List Char)
  | instruction
  | instructionEnd
  | bang
  | bangDash
  | comment
  | commentDash
  | commentDashDash
  | cdataOpen (next : Char) (rest : List Char)
  | cdata
  | cdataBracket
  | cdataBrackets
  deriving DecidableEq, Repr

def quotationMark : Char := '\x22'

def apostrophe : Char := '\x27'

def space (c : Char) : Bool := c = ' ' ∨ c = '\t' ∨ c = '\r' ∨ c = '\n'

def nameStartRanges : List (Nat × Nat) :=
  [(0x3A, 0x3A), (0x41, 0x5A), (0x5F, 0x5F), (0x61, 0x7A), (0xC0, 0xD6), (0xD8, 0xF6),
    (0xF8, 0x2FF), (0x370, 0x37D), (0x37F, 0x1FFF), (0x200C, 0x200D), (0x2070, 0x218F),
    (0x2C00, 0x2FEF), (0x3001, 0xD7FF), (0xF900, 0xFDCF), (0xFDF0, 0xFFFD), (0x10000, 0xEFFFF)]

def nameRanges : List (Nat × Nat) :=
  [(0x2D, 0x2E), (0x30, 0x39), (0xB7, 0xB7), (0x300, 0x36F), (0x203F, 0x2040)]

def inRanges (ranges : List (Nat × Nat)) (c : Char) : Bool :=
  ranges.any fun r => r.1 ≤ c.toNat ∧ c.toNat ≤ r.2

def nameStart (c : Char) : Bool := inRanges nameStartRanges c

def nameChar (c : Char) : Bool := nameStart c || inRanges nameRanges c

def isName : List Char → Bool
  | [] => false
  | c :: cs => nameStart c && cs.all nameChar

def isReference : List Char → Bool
  | '#' :: 'x' :: ds => ds ≠ [] ∧ ds.all fun d => d.isDigit || d ∈ "abcdefABCDEF".toList
  | '#' :: ds => ds ≠ [] ∧ ds.all Char.isDigit
  | cs => isName cs

def tagPiece (name : List Char) (form : TagForm) : Piece := .tag ⟨String.ofList name, form⟩

def startTail (name : List Char) (c : Char) : Option (Mode × List Piece) :=
  if c = '>' then some (.content, [tagPiece name .opening])
  else if c = '/' then some (.slash name, [])
  else if space c then some (.gap name, [])
  else none

/-- One character; `none` is a text that is not well formed. -/
def step : Mode → Char → Option (Mode × List Piece)
  | .content, c =>
    if c = '<' then some (.opened, [])
    else if c = '&' then some (.reference [], [])
    else some (.content, [.char c])
  | .reference text, c =>
    if c = ';' then
      if isReference text then some (.content, [.reference (String.ofList text)]) else none
    else if nameChar c ∨ c = '#' then some (.reference (text ++ [c]), [])
    else none
  | .opened, c =>
    if c = '/' then some (.stopOpened, [])
    else if c = '?' then some (.instruction, [])
    else if c = '!' then some (.bang, [])
    else if nameStart c then some (.startName [c], [])
    else none
  | .startName name, c =>
    if nameChar c then some (.startName (name ++ [c]), []) else startTail name c
  | .gap name, c => if nameStart c then some (.attrName name, []) else startTail name c
  | .attrName name, c =>
    if nameChar c then some (.attrName name, [])
    else if c = '=' then some (.attrValue name, [])
    else if space c then some (.attrEq name, [])
    else none
  | .attrEq name, c =>
    if c = '=' then some (.attrValue name, [])
    else if space c then some (.attrEq name, [])
    else none
  | .attrValue name, c =>
    if c = quotationMark then some (.quoted name true, [])
    else if c = apostrophe then some (.quoted name false, [])
    else if space c then some (.attrValue name, [])
    else none
  | .quoted name double, c =>
    if c = (if double then quotationMark else apostrophe) then some (.quoteEnd name, [])
    else if c = '<' then none
    else some (.quoted name double, [])
  | .quoteEnd name, c => startTail name c
  | .slash name, c => if c = '>' then some (.content, [tagPiece name .empty]) else none
  | .stopOpened, c => if nameStart c then some (.stopName [c], []) else none
  | .stopName name, c =>
    if nameChar c then some (.stopName (name ++ [c]), [])
    else if c = '>' then some (.content, [tagPiece name .closing])
    else if space c then some (.stopGap name, [])
    else none
  | .stopGap name, c =>
    if c = '>' then some (.content, [tagPiece name .closing])
    else if space c then some (.stopGap name, [])
    else none
  | .instruction, c => some (if c = '?' then .instructionEnd else .instruction, [])
  | .instructionEnd, c =>
    some (if c = '>' then .content else if c = '?' then .instructionEnd else .instruction, [])
  | .bang, c =>
    if c = '-' then some (.bangDash, [])
    else if c = '[' then some (.cdataOpen 'C' ['D', 'A', 'T', 'A', '['], [])
    else none
  | .bangDash, c => if c = '-' then some (.comment, []) else none
  | .comment, c => some (if c = '-' then .commentDash else .comment, [])
  | .commentDash, c => some (if c = '-' then .commentDashDash else .comment, [])
  | .commentDashDash, c => if c = '>' then some (.content, []) else none
  | .cdataOpen next rest, c =>
    if c = next then
      match rest with
      | [] => some (.cdata, [])
      | d :: ds => some (.cdataOpen d ds, [])
    else none
  | .cdata, c => some (if c = ']' then .cdataBracket else .cdata, [])
  | .cdataBracket, c => some (if c = ']' then .cdataBrackets else .cdata, [])
  | .cdataBrackets, c =>
    some (if c = '>' then .content else if c = ']' then .cdataBrackets else .cdata, [])

def scan : Mode → List Char → Option (Mode × List Piece)
  | mode, [] => some (mode, [])
  | mode, c :: cs =>
    (step mode c).bind fun r => (scan r.1 cs).map fun r' => (r'.1, r.2 ++ r'.2)

def lex (s : String) : Option (List Piece) :=
  match scan .content s.toList with
  | some (.content, pieces) => some pieces
  | _ => none

def Piece.tag? : Piece → Option Tag
  | .tag t => some t
  | .char _ | .reference _ => none

def Piece.char? : Piece → Option Char
  | .char c => some c
  | .tag _ | .reference _ => none

def tags (s : String) : Option (List Tag) := (lex s).map (List.filterMap Piece.tag?)

def characterData (s : String) : Option (List Char) := (lex s).map (List.filterMap Piece.char?)

/-- No character starts markup. -/
def Plain (cs : List Char) : Prop := '<' ∉ cs ∧ '&' ∉ cs

instance (cs : List Char) : Decidable (Plain cs) := inferInstanceAs (Decidable (_ ∧ _))

example : tags "<a b='>'>x<!-- <c> --><d/></a>" =
    some [⟨"a", .opening⟩, ⟨"d", .empty⟩, ⟨"a", .closing⟩] := by decide +kernel

variable {name cs : List Char} {mode : Mode}

theorem scan_append (mode : Mode) (cs ds : List Char) :
    scan mode (cs ++ ds) =
      (scan mode cs).bind fun r => (scan r.1 ds).map fun r' => (r'.1, r.2 ++ r'.2) := by
  induction cs generalizing mode with
  | nil =>
    rw [List.nil_append, scan, Option.bind_some]
    cases scan mode ds <;> rfl
  | cons c cs ih =>
    rw [List.cons_append, scan, scan]
    cases step mode c with
    | none => rfl
    | some r =>
      rw [Option.bind_some, Option.bind_some, ih]
      cases scan r.1 cs with
      | none => rfl
      | some r' =>
        rw [Option.bind_some, Option.map_some, Option.bind_some]
        cases scan r'.1 ds <;> simp

theorem plain_append {ds : List Char} : Plain (cs ++ ds) ↔ Plain cs ∧ Plain ds := by
  simp only [Plain, List.mem_append, not_or]
  exact and_and_and_comm

theorem scan_content (h : Plain cs) : scan .content cs = some (.content, cs.map .char) := by
  induction cs with
  | nil => rfl
  | cons c cs ih =>
    obtain ⟨hlt, hamp⟩ := h
    rw [List.mem_cons, not_or] at hlt hamp
    rw [scan, step, if_neg (Ne.symm hlt.1), if_neg (Ne.symm hamp.1), Option.bind_some,
      ih ⟨hlt.2, hamp.2⟩]
    rfl

theorem scan_loop (loop : List Char → Mode) (read : List Char)
    (h : ∀ read, ∀ c ∈ cs, step (loop read) c = some (loop (read ++ [c]), [])) :
    scan (loop read) cs = some (loop (read ++ cs), []) := by
  induction cs generalizing read with
  | nil => rw [scan, List.append_nil]
  | cons c cs ih =>
    rw [scan, h read c List.mem_cons_self, Option.bind_some,
      ih _ fun read d hd => h read d (List.mem_cons_of_mem c hd), List.append_assoc]
    rfl

theorem scan_quoted (h : ∀ c ∈ cs, c ≠ quotationMark ∧ c ≠ '<') :
    scan (.quoted name true) cs = some (.quoted name true, []) := by
  apply scan_loop (fun _ => .quoted name true) []
  intro _ c hc
  obtain ⟨hquote, hlt⟩ := h c hc
  rw [step, if_neg (by simpa using hquote), if_neg hlt]

theorem scan_startName (h : ∀ c ∈ cs, nameChar c) :
    scan (.startName name) cs = some (.startName (name ++ cs), []) := by
  apply scan_loop
  intro name c hc
  rw [step, if_pos (h c hc)]

theorem scan_stopName (h : ∀ c ∈ cs, nameChar c) :
    scan (.stopName name) cs = some (.stopName (name ++ cs), []) := by
  apply scan_loop
  intro name c hc
  rw [step, if_pos (h c hc)]

theorem scan_attrName (h : ∀ c ∈ cs, nameChar c) :
    scan (.attrName name) cs = some (.attrName name, []) := by
  apply scan_loop (fun _ => .attrName name) []
  intro _ c hc
  rw [step, if_pos (h c hc)]

theorem plain_step {c d : Char} {r : Mode × List Piece} (h : step mode c = some r)
    (hd : .char d ∈ r.2) : Plain [d] := by
  have hall : ∀ x ∈ step mode c, ∀ e, .char e ∈ x.2 → e ≠ '<' ∧ e ≠ '&' := by
    cases mode <;> simp only [step, startTail, tagPiece] <;> grind
  obtain ⟨hlt, hamp⟩ := hall r h d hd
  exact ⟨fun hmem => hlt (List.mem_singleton.mp hmem).symm,
    fun hmem => hamp (List.mem_singleton.mp hmem).symm⟩

theorem plain_scan {r : Mode × List Piece} {d : Char} (h : scan mode cs = some r)
    (hd : .char d ∈ r.2) : Plain [d] := by
  induction cs generalizing mode r with
  | nil =>
    cases h
    cases hd
  | cons c cs ih =>
    obtain ⟨r₁, hstep, hrest⟩ := Option.bind_eq_some_iff.mp h
    obtain ⟨r₂, hscan, rfl⟩ := Option.map_eq_some_iff.mp hrest
    obtain hd | hd := List.mem_append.mp hd
    · exact plain_step hstep hd
    · exact ih hscan hd

inductive Item
  | start (name : String) (attrs : List (String × String))
  | empty (name : String) (attrs : List (String × String))
  | stop (name : String)
  | text (s : String)

def attrText (a : String × String) : String := " " ++ a.1 ++ "=\"" ++ a.2 ++ "\""

namespace Item

def render : Item → String
  | start name attrs => "<" ++ name ++ String.join (attrs.map attrText) ++ ">"
  | empty name attrs => "<" ++ name ++ String.join (attrs.map attrText) ++ "/>"
  | stop name => "</" ++ name ++ ">"
  | text s => s

def tag? : Item → Option Tag
  | start name _ => some ⟨name, .opening⟩
  | empty name _ => some ⟨name, .empty⟩
  | stop name => some ⟨name, .closing⟩
  | text _ => none

def chars : Item → List Char
  | text s => s.toList
  | _ => []

def pieces (item : Item) : List Piece := item.tag?.toList.map .tag ++ item.chars.map .char

def cleanAttr (a : String × String) : Bool :=
  isName a.1.toList && a.2.toList.all fun c => c ≠ quotationMark ∧ c ≠ '<'

/-- The tags are written with names, and their attributes with values that end at the quote. -/
def clean : Item → Bool
  | start name attrs | empty name attrs => isName name.toList && attrs.all cleanAttr
  | stop name => isName name.toList
  | text _ => true

end Item

def renderAll (items : List Item) : String := String.join (items.map Item.render)

/-- The places in a start tag where it can end or go on with an attribute. -/
inductive Between (name : List Char) : Mode → Prop
  | afterName : Between name (.startName name)
  | afterAttr : Between name (.quoteEnd name)

theorem step_between (h : Between name mode) {c : Char} (hc : nameChar c = false) :
    step mode c = startTail name c := by
  cases h with
  | afterName => rw [step, if_neg (by simp [hc])]
  | afterAttr => rfl

theorem scan_attr (h : Between name mode) {a : String × String} (ha : Item.cleanAttr a) :
    scan mode (attrText a).toList = some (.quoteEnd name, []) := by
  obtain ⟨key, value⟩ := a
  rw [Item.cleanAttr, Bool.and_eq_true, List.all_eq_true] at ha
  obtain ⟨hkey, hvalue⟩ := ha
  have htext : (attrText (key, value)).toList =
      ' ' :: (key.toList ++ ('=' :: quotationMark :: (value.toList ++ [quotationMark]))) := by
    simp [attrText, quotationMark]
  dsimp only at hkey
  rw [htext]
  cases hcs : key.toList with
  | nil =>
    rw [hcs] at hkey
    cases hkey
  | cons c cs =>
    rw [hcs, isName, Bool.and_eq_true, List.all_eq_true] at hkey
    obtain ⟨hfirst, hrest⟩ := hkey
    have hspace : step mode ' ' = some (.gap name, []) :=
      (step_between h (by decide)).trans rfl
    have hbegin : step (.gap name) c = some (.attrName name, []) := by rw [step, if_pos hfirst]
    have hequals : step (.attrName name) '=' = some (.attrValue name, []) := rfl
    have hopen : step (.attrValue name) quotationMark = some (.quoted name true, []) := rfl
    have hclose : step (.quoted name true) quotationMark = some (.quoteEnd name, []) := rfl
    have hquoted : scan (.quoted name true) value.toList = some (.quoted name true, []) :=
      scan_quoted fun d hd => by simpa using hvalue d hd
    rw [scan, hspace, Option.bind_some, List.cons_append, scan, hbegin, Option.bind_some,
      scan_append, scan_attrName hrest, Option.bind_some, scan, hequals, Option.bind_some, scan,
      hopen, Option.bind_some, scan_append, hquoted, Option.bind_some, scan, hclose]
    rfl

theorem scan_attrs (h : Between name mode) {attrs : List (String × String)}
    (hattrs : ∀ a ∈ attrs, Item.cleanAttr a) :
    ∃ mode', Between name mode' ∧
      scan mode (String.join (attrs.map attrText)).toList = some (mode', []) := by
  induction attrs generalizing mode with
  | nil => exact ⟨mode, h, rfl⟩
  | cons a attrs ih =>
    obtain ⟨mode', hbetween, hscan⟩ :=
      ih .afterAttr fun b hb => hattrs b (List.mem_cons_of_mem a hb)
    refine ⟨mode', hbetween, ?_⟩
    rw [List.map_cons, String.join_cons, String.toList_append, scan_append,
      scan_attr h (hattrs a List.mem_cons_self), Option.bind_some, hscan]
    rfl

theorem scan_opened (hname : isName name) : scan .opened name = some (.startName name, []) := by
  cases name with
  | nil => cases hname
  | cons c cs =>
    rw [isName, Bool.and_eq_true, List.all_eq_true] at hname
    have hslash : c ≠ '/' := fun h => absurd hname.1 (by rw [h]; decide)
    have hquestion : c ≠ '?' := fun h => absurd hname.1 (by rw [h]; decide)
    have hbang : c ≠ '!' := fun h => absurd hname.1 (by rw [h]; decide)
    rw [scan, step, if_neg hslash, if_neg hquestion, if_neg hbang, if_pos hname.1,
      Option.bind_some, scan_startName hname.2]
    rfl

theorem scan_stopOpened (hname : isName name) :
    scan .stopOpened name = some (.stopName name, []) := by
  cases name with
  | nil => cases hname
  | cons c cs =>
    rw [isName, Bool.and_eq_true, List.all_eq_true] at hname
    rw [scan, step, if_pos hname.1, Option.bind_some, scan_stopName hname.2]
    rfl

theorem scan_startTag {name : String} (hname : isName name.toList)
    {attrs : List (String × String)} (hattrs : ∀ a ∈ attrs, Item.cleanAttr a) :
    ∃ mode, Between name.toList mode ∧
      scan .content ("<" ++ name ++ String.join (attrs.map attrText)).toList = some (mode, []) := by
  have hstart : Between name.toList (.startName name.toList) := .afterName
  obtain ⟨mode, hbetween, hscan⟩ := scan_attrs hstart hattrs
  refine ⟨mode, hbetween, ?_⟩
  have hopen : scan .content "<".toList = some (.opened, []) := rfl
  rw [String.toList_append, String.toList_append, scan_append, scan_append, hopen,
    Option.bind_some, scan_opened hname, Option.map_some, Option.bind_some, hscan]
  rfl

theorem scan_render {item : Item} (hclean : item.clean) (htext : Plain item.chars) :
    scan .content item.render.toList = some (.content, item.pieces) := by
  cases item with
  | start name attrs =>
    rw [Item.clean, Bool.and_eq_true, List.all_eq_true] at hclean
    obtain ⟨mode, hbetween, hscan⟩ := scan_startTag hclean.1 hclean.2
    have hend : step mode '>' = some (.content, [tagPiece name.toList .opening]) :=
      (step_between hbetween (by decide)).trans rfl
    rw [Item.render, String.toList_append, scan_append, hscan, Option.bind_some,
      show ">".toList = ['>'] from rfl, scan, hend]
    simp [scan, tagPiece, Item.pieces, Item.tag?, Item.chars]
  | empty name attrs =>
    rw [Item.clean, Bool.and_eq_true, List.all_eq_true] at hclean
    obtain ⟨mode, hbetween, hscan⟩ := scan_startTag hclean.1 hclean.2
    have hslash : step mode '/' = some (.slash name.toList, []) :=
      (step_between hbetween (by decide)).trans rfl
    rw [Item.render, String.toList_append, scan_append, hscan, Option.bind_some,
      show "/>".toList = ['/', '>'] from rfl, scan, hslash]
    simp [scan, step, tagPiece, Item.pieces, Item.tag?, Item.chars]
  | stop name =>
    have hopen : scan .content "</".toList = some (.stopOpened, []) := rfl
    have hend : step (.stopName name.toList) '>' =
        some (.content, [tagPiece name.toList .closing]) := rfl
    rw [Item.render, String.toList_append, String.toList_append, scan_append, scan_append, hopen,
      Option.bind_some, scan_stopOpened hclean, Option.map_some, Option.bind_some,
      show ">".toList = ['>'] from rfl, scan, hend]
    simp [scan, tagPiece, Item.pieces, Item.tag?, Item.chars]
  | text s =>
    exact scan_content htext

theorem scan_renderAll {items : List Item} {read : Item → List Piece}
    (h : ∀ item ∈ items, scan .content item.render.toList = some (.content, read item)) :
    scan .content (renderAll items).toList = some (.content, items.flatMap read) := by
  induction items with
  | nil => rfl
  | cons item items ih =>
    rw [renderAll, List.map_cons, String.join_cons, ← renderAll, String.toList_append, scan_append,
      h item List.mem_cons_self, Option.bind_some,
      ih fun i hi => h i (List.mem_cons_of_mem item hi)]
    rfl

theorem lex_renderAll {items : List Item} {read : Item → List Piece}
    (h : ∀ item ∈ items, scan .content item.render.toList = some (.content, read item)) :
    lex (renderAll items) = some (items.flatMap read) := by
  rw [lex, scan_renderAll h]

theorem renderAll_append (items items' : List Item) :
    renderAll (items ++ items') = renderAll items ++ renderAll items' := by
  rw [renderAll, List.map_append, String.join_append]
  rfl

theorem renderAll_intercalate (sep : String) (lines : List (List Item)) :
    sep.intercalate (lines.map renderAll) = renderAll ([Item.text sep].intercalate lines) := by
  induction lines with
  | nil => rfl
  | cons line lines ih =>
    cases lines with
    | nil => simp
    | cons next lines =>
      rw [List.map_cons, List.map_cons, String.intercalate_cons_cons, ← List.map_cons, ih,
        List.intercalate_cons_cons, renderAll_append, renderAll_append]
      simp [renderAll, Item.render]

theorem forall_mem_intercalate {α : Type} {P : α → Prop} {sep : α} (hsep : P sep)
    (lines : List (List α)) :
    (∀ x ∈ [sep].intercalate lines, P x) ↔ ∀ line ∈ lines, ∀ x ∈ line, P x := by
  induction lines with
  | nil => simp
  | cons line lines ih =>
    cases lines with
    | nil => simp
    | cons next lines =>
      rw [List.intercalate_cons_cons, List.forall_mem_append, List.forall_mem_append, ih]
      simp [hsep]

theorem flatMap_intercalate {α β : Type} {f : α → List β} {sep : α} (hsep : f sep = [])
    (lines : List (List α)) :
    ([sep].intercalate lines).flatMap f = lines.flatMap (List.flatMap f) := by
  induction lines with
  | nil => rfl
  | cons line lines ih =>
    cases lines with
    | nil => simp
    | cons next lines =>
      rw [List.intercalate_cons_cons, List.flatMap_append, List.flatMap_append, ih]
      simp [hsep]

theorem filterMap_intercalate {α β : Type} {f : α → Option β} {sep : α} (hsep : f sep = none)
    (lines : List (List α)) :
    ([sep].intercalate lines).filterMap f = lines.flatMap (List.filterMap f) := by
  have hnil : (f sep).toList = [] := by rw [hsep]; rfl
  have hfun : List.filterMap f = List.flatMap fun x => (f x).toList :=
    funext (List.filterMap_eq_flatMap_toList f)
  rw [hfun]
  exact @flatMap_intercalate α β (fun x => (f x).toList) sep hnil lines

theorem filterMap_tag_pieces (items : List Item) :
    (items.flatMap Item.pieces).filterMap Piece.tag? = items.filterMap Item.tag? := by
  induction items with
  | nil => rfl
  | cons item items ih =>
    rw [List.flatMap_cons, List.filterMap_append, ih]
    cases item <;>
      simp [Item.pieces, Item.tag?, Item.chars, Piece.tag?, Function.comp_def, List.filterMap_cons]

theorem filterMap_char_pieces (items : List Item) :
    (items.flatMap Item.pieces).filterMap Piece.char? = items.flatMap Item.chars := by
  induction items with
  | nil => rfl
  | cons item items ih =>
    rw [List.flatMap_cons, List.filterMap_append, ih]
    cases item <;> simp [Item.pieces, Item.tag?, Item.chars, Piece.char?, Function.comp_def]

theorem tags_renderAll {items : List Item} (hclean : ∀ item ∈ items, item.clean)
    (htext : ∀ item ∈ items, Plain item.chars) :
    tags (renderAll items) = some (items.filterMap Item.tag?) := by
  rw [tags, lex_renderAll fun item hitem => scan_render (hclean item hitem) (htext item hitem),
    Option.map_some, filterMap_tag_pieces]

/-- The texts of a document are its character data exactly if all are plain. -/
theorem characterData_renderAll_iff {items : List Item} (hclean : ∀ item ∈ items, item.clean) :
    characterData (renderAll items) = some (items.flatMap Item.chars) ↔
      ∀ item ∈ items, Plain item.chars := by
  constructor
  · intro hdata item hitem
    obtain ⟨pieces, hlex, hchars⟩ := Option.map_eq_some_iff.mp hdata
    have hplain (c : Char) (hc : c ∈ item.chars) : Plain [c] := by
      have hmem : c ∈ pieces.filterMap Piece.char? := by
        rw [hchars]
        exact List.mem_flatMap.mpr ⟨item, hitem, hc⟩
      obtain ⟨piece, hpiece, hchar⟩ := List.mem_filterMap.mp hmem
      cases piece with
      | char d =>
        cases hchar
        rw [lex] at hlex
        split at hlex
        · rename_i hscan
          cases hlex
          exact plain_scan hscan hpiece
        · cases hlex
      | _ => cases hchar
    exact ⟨fun hlt => (hplain '<' hlt).1 List.mem_cons_self,
      fun hamp => (hplain '&' hamp).2 List.mem_cons_self⟩
  · intro htext
    rw [characterData,
      lex_renderAll fun item hitem => scan_render (hclean item hitem) (htext item hitem),
      Option.map_some, filterMap_char_pieces]

end CanSniffer.Library.XmlTags
