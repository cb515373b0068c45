import ClassLang.Text.Position

/-!
A source: a text and, when it came from one file, the path of that file. A span marks a stretch of
a source by its two offsets.
-/

namespace ClassLang

/-- A text to be read, with the path it is known by. -/
structure Source where
  text : String
  path : Option String
deriving DecidableEq, Repr

namespace Source

/-- The characters of the source. -/
def chars (source : Source) : List Char := source.text.toList

/-- The length of the source in bytes. -/
def length (source : Source) : Nat := byteLength source.chars

end Source

/-- A stretch of a source, from the offset `start` up to the offset `stop`. -/
structure Span where
  start : Nat
  stop : Nat
deriving DecidableEq, Repr, Inhabited

namespace Span

/-- The least stretch that holds both. -/
def join (a b : Span) : Span := ⟨min a.start b.start, max a.stop b.stop⟩

/-- The empty stretch at the end. -/
def endPoint (a : Span) : Span := ⟨a.stop, a.stop⟩

/-- Whether one stretch lies within another. -/
def Within (inner outer : Span) : Prop := outer.start ≤ inner.start ∧ inner.stop ≤ outer.stop

theorem within_join_left (a b : Span) : a.Within (a.join b) :=
  ⟨Nat.min_le_left .., Nat.le_max_left ..⟩

theorem within_join_right (a b : Span) : b.Within (a.join b) :=
  ⟨Nat.min_le_right .., Nat.le_max_right ..⟩

theorem join_within {a b outer : Span} (ha : a.Within outer) (hb : b.Within outer) :
    (a.join b).Within outer :=
  ⟨Nat.le_min.2 ⟨ha.1, hb.1⟩, Nat.max_le.2 ⟨ha.2, hb.2⟩⟩

end Span

namespace Source

/-- The whole source. -/
def whole (source : Source) : Span := ⟨0, source.length⟩

/-- The text of a stretch. -/
def slice (source : Source) (span : Span) : String :=
  String.ofList (textFrom (textBefore source.chars span.stop) span.start)

/-- Whether the offsets are positions of the source in order. -/
def admits (source : Source) (span : Span) : Bool :=
  span.start ≤ span.stop && isBoundary source.chars span.start && isBoundary source.chars span.stop

/-- Where an offset stands, as line and column. -/
def lineCol (source : Source) (offset : Nat) : LineCol := ClassLang.lineCol source.chars offset

/-- Where a stretch starts, as shown to a reader: after the path, if there is one. -/
def location (source : Source) (span : Span) : String :=
  let here := (source.lineCol span.start).text
  match source.path with
  | some path => path ++ ":" ++ here
  | none => here

end Source

end ClassLang
