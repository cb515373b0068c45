import ClassLang.Source

/-!
Regions: stretches that know their source, so that stretches of several sources can meet. Only
regions of one buffer are joined; a region of the nameless empty source stands for "nowhere".
-/

namespace ClassLang

/-- A stretch of a source. Two buffers with equal contents are told apart by `buffer`. -/
structure Region where
  source : Source
  buffer : Nat
  span : Span
deriving Repr

namespace Region

/-- The region between two offsets, if they are positions of the source in order. -/
def ofOffsets? (source : Source) (buffer start stop : Nat) : Option Region :=
  if source.admits ⟨start, stop⟩ then some ⟨source, buffer, ⟨start, stop⟩⟩ else none

/-- The whole of a source. -/
def whole (source : Source) (buffer : Nat) : Region := ⟨source, buffer, source.whole⟩

/-- The region that stands for no place. -/
def nowhere : Region := ⟨⟨"", none⟩, 0, ⟨0, 0⟩⟩

/-- Whether the source is empty and has no path. -/
def isNowhere (r : Region) : Bool := r.source.text.isEmpty && r.source.path.isNone

/-- Equality of contents: the buffer does not count. -/
def same (a b : Region) : Bool := a.source == b.source && a.span == b.span

/-- The least region that holds both; "nowhere" is neutral, and a foreign buffer is left out. -/
def join (a b : Region) : Region :=
  if a.isNowhere then b
  else if b.isNowhere || a.buffer != b.buffer then a
  else { a with span := a.span.join b.span }

/-- Joins from the left; nothing joined is nowhere. -/
def joinAll : List Region → Region
  | [] => nowhere
  | first :: rest => rest.foldl join first

/-- The empty region at the end. -/
def endPoint (r : Region) : Region := { r with span := r.span.endPoint }

/-- The text of the region. -/
def text (r : Region) : String := r.source.slice r.span

/-- Where the region starts, as shown to a reader. -/
def location (r : Region) : String := r.source.location r.span

end Region

end ClassLang
