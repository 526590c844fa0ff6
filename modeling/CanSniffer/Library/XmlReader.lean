import CanSniffer.Library.XmlTags

namespace CanSniffer.Library.XmlReader

open XmlTags

-- The tags of a text with their attributes, whose values are taken as they are written, and the
-- characters between them.

inductive Event
  | start (name : String) (attrs : List (String × String))
  | empty (name : String) (attrs : List (String × String))
  | stop (name : String)
  | char (c : Char)
  | reference (text : String)
  deriving DecidableEq, Repr

def event (attrs : List (String × String)) : Piece → Event
  | .tag ⟨name, .opening⟩ => .start name attrs
  | .tag ⟨name, .empty⟩ => .empty name attrs
  | .tag ⟨name, .closing⟩ => .stop name
  | .char c => .char c
  | .reference text => .reference text

/-- Where the reader is, the attributes of the tag it is in, and the one it is reading. -/
structure Reader where
  mode : Mode
  attrs : List (String × String)
  key : List Char
  value : List Char

namespace Reader

def note (r : Reader) (c : Char) (mode : Mode) : Reader :=
  match r.mode, mode with
  | .opened, .startName _ => { r with attrs := [] }
  | .gap _, .attrName _ => { r with key := [c], value := [] }
  | .attrName _, .attrName _ => { r with key := r.key ++ [c] }
  | .quoted _ _, .quoted _ _ => { r with value := r.value ++ [c] }
  | .quoted _ _, .quoteEnd _ =>
    { r with attrs := r.attrs ++ [(String.ofList r.key, String.ofList r.value)] }
  | _, _ => r

def next (r : Reader) (c : Char) : Option (Reader × List Event) :=
  (step r.mode c).map fun m => ({ r.note c m.1 with mode := m.1 }, m.2.map (event r.attrs))

def readChars (r : Reader) : List Char → Option (Reader × List Event)
  | [] => some (r, [])
  | c :: cs => (r.next c).bind fun m => (m.1.readChars cs).map fun m' => (m'.1, m.2 ++ m'.2)

end Reader

open Reader

def read (s : String) : Option (List Event) :=
  ((Reader.mk .content [] [] []).readChars s.toList).bind fun m =>
    if m.1.mode = .content then some m.2 else none

namespace Event

def piece : Event → Piece
  | start name _ => .tag ⟨name, .opening⟩
  | empty name _ => .tag ⟨name, .empty⟩
  | stop name => .tag ⟨name, .closing⟩
  | char c => .char c
  | reference text => .reference text

end Event

variable {r r' : Reader} {cs ds : List Char} {name : List Char} {mode : Mode}
  {attrs : List (String × String)} {key value : List Char}

def events : Item → List Event
  | .start name attrs => [.start name attrs]
  | .empty name attrs => [.empty name attrs]
  | .stop name => [.stop name]
  | .text s => s.toList.map .char

end CanSniffer.Library.XmlReader
