import SkinCompiler.Markup.AttributeRule
import SkinCompiler.Skin.Basic

/-!
# Edits of styles

A skin that stays a component keeps its source, except for its styles: what declares or imports
them is taken out or replaced, and references to them can be replaced by the classes they stand
for.
-/

namespace SkinCompiler.Skin

open Source

/-! ## Lines -/

/-- The end of a range, or of its line if nothing but blanks and semicolons follows on it. -/
def lineEnd (source : Text) (stop : Nat) : Nat :=
  let (rest, after) := (source.drop stop).span (· != '\n')
  if !after.isEmpty && rest.all fun c => c == ' ' || c == '\t' || c == ';' then
    stop + rest.length + 1
  else stop

/-- The start of a range, or of its line if nothing but blanks and `export` stands before it. -/
def lineStart (source : Text) (start : Nat) : Nat :=
  let before := (source.take start).reverse.takeWhile (· != '\n')
  let lead := Text.strip before.reverse
  if lead.isEmpty || lead = "export".toList then start - before.length else start

/-- Take a range out, with its line if nothing else stands on it. -/
def removal (source : Text) (s : Span) : Text.Edit :=
  ⟨lineStart source s.start, lineEnd source s.stop, []⟩

/-! ## The declaration and the import -/

/-- The edit of the import of the styles. -/
def importEdit (source replacement : Text) (s : Span) : Text.Edit :=
  if replacement.isEmpty then removal source s
  else ⟨s.start, lineEnd source s.stop, replacement ++ ['\n']⟩

/-- Where a new import goes: after the last one, or to the beginning. -/
def importPlace (source : Text) (imports : List Import) : Nat :=
  match imports.filterMap (·.span) with
  | [] => 0
  | spans => lineEnd source ((spans.map (·.stop)).foldl max 0)

/-- The edits that put a line, which can be empty, in the place of the import and the declaration
of the styles. -/
def stylesEdits (s : LoadedSkin) (replacement : Text) : List Text.Edit :=
  let o := s.outline
  let importSpan := o.stylesImport.bind (·.span)
  let imported := (importSpan.map (importEdit s.source replacement)).toList
  let declared := match o.stylesSpan, o.stylesValue with
    | some span, some _ => [removal s.source span]
    | _, _ => []
  let inserted :=
    if replacement.isEmpty || importSpan.isSome then []
    else
      let place : Int := importPlace s.source o.imports
      [⟨place, place, replacement ++ ['\n']⟩]
  imported ++ declared ++ inserted

/-! ## References -/

/-- A style key where it is used. -/
structure Reference where
  /-- The key. -/
  key : Text
  /-- The range of the reference. -/
  span : Span
  /-- The range of the braces around it, if it is the whole value of an attribute. -/
  braces : Option Span

/-- The references in the braces of an attribute. -/
def referencesIn (stylesName : Option Text) (braces : Span) (expression : Node) : List Reference :=
  let refer (whole : Bool) (n : Node) : Option Reference :=
    (Markup.styleKey? stylesName n).map fun key =>
      { key, span := n.span, braces := if whole then some braces else none }
  match expression.all with
  | [] => []
  | first :: rest => (refer true first).toList ++ rest.filterMap (refer false)

/-- References without those whose range has been seen before. -/
def distinctReferences (rs : List Reference) : List Reference :=
  rs.foldl (fun seen r => if seen.any fun s => s.span = r.span then seen else seen ++ [r]) []

/-- The references to styles in the attributes of an element tree. -/
def references (stylesName : Option Text) (root : Node) : List Reference :=
  distinctReferences (root.all.flatMap fun
    | .attribute _ _ (some (.container braces (some expression))) =>
      referencesIn stylesName braces expression
    | _ => [])

/-- The classes of a reference as a value: a string, in braces where that needs escapes in an
attribute. -/
def referenceText (classes : Text) (whole : Bool) : Text :=
  let string := Json.textLiteral classes
  if whole && classes.any fun c => c == '\\' || c == '"' then
    '\x7b' :: string ++ ['\x7d']
  else string

/-- Replace a reference by its classes. -/
def referenceEdit (styles : Table Text) (r : Reference) : Text.Edit :=
  let classes := (Table.get? r.key styles).getD []
  let span := r.braces.getD r.span
  ⟨span.start, span.stop, referenceText classes r.braces.isSome⟩

/-- A reference to a style key that there is not. -/
def unknownStyleKey (key : Text) : Diagnostic where
  rule := "unknown-style-key"
  message := "'" ++ key ++ "' is not defined in the styles object"
  styleKey := some key

/-- The report of a reference. -/
def referenceFinding? (styles : Table Text) (r : Reference) : Option Diagnostic :=
  if styles.has r.key then none else some (unknownStyleKey r.key)

end SkinCompiler.Skin
