import SkinCompiler.Text.Basic

/-!
# Splices

Edits replace ranges of a text, all at once: every range is one of the given text, whatever the
other edits do.  Ranges must lie inside the text and must not overlap; an empty range inserts.
-/

namespace SkinCompiler.Text

/-- A range with the text that takes its place. -/
structure Edit where
  /-- The first position of the range. -/
  start : Int
  /-- The position after its last one. -/
  stop : Int
  /-- The text that takes its place. -/
  text : Text
  deriving DecidableEq

namespace Edit

/-- An edit comes no later than another one: by its start, then by its end. -/
def le (a b : Edit) : Bool := a.start < b.start || (a.start == b.start && a.stop ≤ b.stop)

/-- Edits by start and end; of equals, the one given first comes first. -/
def sorted (edits : List Edit) : List Edit := edits.mergeSort le

end Edit

/-- An edit whose range does not lie in the text or overlaps an earlier one. -/
structure BadRange where
  /-- The first position of the range. -/
  start : Int
  /-- The position after its last one. -/
  stop : Int
  deriving DecidableEq

/-- The text of the error. -/
def BadRange.message (e : BadRange) : Text :=
  "invalid or overlapping edit range " ++ ofInt e.start ++ ":" ++ ofInt e.stop

/-- Apply edits in order to the part of the text that begins at position `done`. -/
def spliceFrom (done : Nat) (rest : Text) : List Edit → Except BadRange Text
  | [] => .ok rest
  | e :: edits =>
    if e.start < done || e.stop < e.start || done + rest.length < e.stop then
      .error ⟨e.start, e.stop⟩
    else do
      let stop := e.stop.toNat
      let after ← spliceFrom stop (rest.drop (stop - done)) edits
      return rest.take (e.start.toNat - done) ++ e.text ++ after

/-- Apply edits to a text. -/
def splice (source : Text) (edits : List Edit) : Except BadRange Text :=
  spliceFrom 0 source (Edit.sorted edits)

end SkinCompiler.Text
