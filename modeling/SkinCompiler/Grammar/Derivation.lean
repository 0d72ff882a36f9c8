import SkinCompiler.Grammar.Chart

/-!
# Derivations

A derivation shows how a text is read: which rule reads each category and which characters each
terminal covers.  `Derivation.extent?` checks a derivation against a grammar and a text and tells
how far it reaches; it does not depend on how the derivation was found.  `Grammar.derive` looks for
the preferred derivation in a chart and gives it only if it passes that check.
-/

namespace SkinCompiler.Grammar

variable {T C F : Type}

/-- How a text is read. -/
inductive Derivation (T C F : Type) where
  /-- A terminal covers the positions from `start` up to `stop`. -/
  | terminal (t : T) (start stop : Nat)
  /-- A rule reads its symbols one after the other. -/
  | node (rule : Rule T C F) (children : List (Derivation T C F))

namespace Derivation

/-- The symbol that a derivation reads. -/
def symbol : Derivation T C F → Symbol T C
  | .terminal t _ _ => .terminal t
  | .node rule _ => .category rule.head

mutual

/-- The first position that a derivation covers. -/
def start? : Derivation T C F → Option Nat
  | .terminal _ start _ => some start
  | .node _ children => startOfRow? children

/-- The first position that a row of derivations covers. -/
def startOfRow? : List (Derivation T C F) → Option Nat
  | [] => none
  | d :: ds => match start? d with
    | some p => some p
    | none => startOfRow? ds

end

mutual

/-- The position after the last one that a derivation covers. -/
def stop? : Derivation T C F → Option Nat
  | .terminal _ _ stop => some stop
  | .node _ children => stopOfRow? children

/-- The position after the last one that a row of derivations covers. -/
def stopOfRow? : List (Derivation T C F) → Option Nat
  | [] => none
  | d :: ds => match stopOfRow? ds with
    | some p => some p
    | none => stop? d

end

end Derivation

/-! ## Checking -/

/-- The text from the front consists of gaps up to `length` characters. -/
def gapCovers (g : Grammar T C F) : (fuel : Nat) → Text → (length : Nat) → Bool
  | _, _, 0 => true
  | 0, _, _ => false
  | fuel + 1, t, length =>
    g.gaps.any fun gap => match gap t with
      | some (n + 1) => n + 1 ≤ length && gapCovers g fuel (t.drop (n + 1)) (length - (n + 1))
      | _ => false

mutual

/-- Where the reading of a derivation ends that begins at position `from`, gaps before it
included; none if the derivation does not fit the grammar and the text. -/
def Derivation.extent? [DecidableEq T] [DecidableEq C] [DecidableEq F] (g : Grammar T C F)
    (text : Text) : Derivation T C F → (position : Nat) → Option Nat
  | .terminal t start stop, position =>
    if position ≤ start && start < stop
        && gapCovers g (start - position) (text.drop position) (start - position)
        && g.measure t (text.drop start) == some (stop - start) then some stop
    else none
  | .node rule children, position =>
    if (g.rulesOf rule.head).contains rule && children.map Derivation.symbol == rule.body then
      extentOfRow? g text children position
    else none

/-- Where the reading of a row of derivations ends. -/
def extentOfRow? [DecidableEq T] [DecidableEq C] [DecidableEq F] (g : Grammar T C F)
    (text : Text) : List (Derivation T C F) → (position : Nat) → Option Nat
  | [], position => some position
  | d :: ds, position =>
    match d.extent? g text position with
    | some stop => extentOfRow? g text ds stop
    | none => none

end

/-- The derivation reads the whole text as category `goal`, up to gaps at its end. -/
def Derivation.covers [DecidableEq T] [DecidableEq C] [DecidableEq F] (g : Grammar T C F)
    (goal : C) (text : Text) (d : Derivation T C F) : Bool :=
  match d.extent? g text 0 with
  | some stop =>
    d.symbol == .category goal
      && gapCovers g (text.length - stop) (text.drop stop) (text.length - stop)
  | none => false

/-! ## Choosing among readings -/

/-- The preferred reading: the smallest rule number, and the one found first among equals.  The
readings are given the latest first. -/
def preferred : List (Reading T C F) → Option (Reading T C F)
  | [] => none
  | r :: rs => match preferred rs with
    | none => some r
    | some best => if r.rule.number < best.rule.number then some r else some best

/-- The readings of a node. -/
def readingsAt (columns : Array (Column T C F)) (ref : NodeRef) : List (Reading T C F) :=
  match columns[ref.column]? with
  | none => []
  | some column => (column.nodes ref.ending).readings.getD ref.slot []

/-- What a node gives, by a choice among its readings: a rule and the derivations of its symbols. -/
abbrev Choice (T C F : Type) := NodeRef → Option (Rule T C F × List (Derivation T C F))

/-- The derivations of the symbols before the last one. -/
def Reading.first (choice : Choice T C F) (reading : Reading T C F) :
    Option (List (Derivation T C F)) :=
  match reading.before with
  | none => some []
  | some ref => (choice ref).map (·.2)

/-- The derivation of the last symbol. -/
def Reading.final (choice : Choice T C F) (reading : Reading T C F) : Option (Derivation T C F) :=
  match reading.last with
  | .terminal t start stop => some (.terminal t start stop)
  | .category ref => (choice ref).map fun (rule, ds) => .node rule ds

/-- The rule of the preferred reading of a node and the derivations of the symbols read. -/
def choose (columns : Array (Column T C F)) : (fuel : Nat) → Choice T C F
  | 0, _ => none
  | fuel + 1, ref =>
    match preferred (readingsAt columns ref) with
    | none => none
    | some reading =>
      match reading.first (choose columns fuel), reading.final (choose columns fuel) with
      | some ds, some d => some (reading.rule, ds ++ [d])
      | _, _ => none

end Grammar

open Grammar

variable {T C F : Type}

/-- The preferred derivation of a text as category `goal`, which must not occur inside rules: a
complete text of it is carried over the gaps that follow. -/
def Grammar.derive [DecidableEq T] [DecidableEq C] [DecidableEq F] (g : Grammar T C F) (goal : C)
    (text : Text) : Except Failure (Derivation T C F) :=
  match Chart.fill g goal 0 text (Chart.start g goal) with
  | .error e => .error e
  | .ok chart =>
    let complete := chart.items.reverse.find? fun item =>
      item.todo.isEmpty && item.rule.head = goal && item.start = 0
    match complete.bind (·.node) with
    | none => .error .unfinished
    | some ref =>
      match choose chart.columns (g.extent * (text.length + 1)) ref with
      | none => .error .unfinished
      | some (rule, ds) =>
        let d := Derivation.node rule ds
        if d.covers g goal text then .ok d else .error .unfinished

end SkinCompiler
