import SkinCompiler.Grammar.Basic

/-!
# Charts

Reading a text by a grammar, all ways at once.  A chart has a column for every position that has
been passed; a column holds the items that wait there for a category.  An item is a rule of which
a part has been read, from a starting position on.  `advance` moves the chart over one character:
it finishes and opens items at the position, then measures the awaited terminals and the gaps.

A text can have several readings.  The items of a position are worked off from the last one to the
first, and every item remembers its readings in the order found, so that the readings of a chart
are ordered; `Grammar.Reading` picks from them.
-/

namespace SkinCompiler.Grammar

variable {T C F : Type}

/-- Which of the two kinds of node an item's readings are kept in: those that end with a
terminal and those that end with a category. -/
inductive Ending where
  /-- The last symbol read is a terminal. -/
  | terminal
  /-- The last symbol read is a category. -/
  | category
  deriving DecidableEq

/-- A place in a chart where readings are kept. -/
structure NodeRef where
  /-- The position at which the readings end. -/
  column : Nat
  /-- Of which kind they are. -/
  ending : Ending
  /-- The place among the readings of this position and kind. -/
  slot : Nat

/-- The last thing that a reading has read. -/
inductive Last (T : Type) where
  /-- A terminal and the positions it covers. -/
  | terminal (t : T) (start stop : Nat)
  /-- A category, with its readings. -/
  | category (node : NodeRef)

/-- One way to have read the first part of a rule: the part before, and the last symbol. -/
structure Reading (T C F : Type) where
  /-- The rule. -/
  rule : Rule T C F
  /-- The readings of the symbols before the last one. -/
  before : Option NodeRef
  /-- The last symbol read. -/
  last : Last T

/-- A rule that has been read up to some place, from some position on. -/
structure Item (T C F : Type) where
  /-- The rule. -/
  rule : Rule T C F
  /-- How many symbols have been read. -/
  done : Nat
  /-- The symbols still to be read. -/
  todo : List (Symbol T C)
  /-- The position of the first symbol. -/
  start : Nat
  /-- The readings of what has been read; none at the beginning of the rule. -/
  node : Option NodeRef

/-- What tells items of a position apart: a finished category or a place in a rule, and the
starting position. -/
structure Key where
  /-- A number for the finished category or the place in the rule. -/
  place : Nat
  /-- The starting position. -/
  start : Nat
  deriving DecidableEq

/-- The key of an item: finished items of a category count as one, whatever their rule. -/
def Item.key (g : Grammar T C F) (item : Item T C F) : Key :=
  match item.todo with
  | [] => ⟨2 * g.index item.rule.head, item.start⟩
  | _ => ⟨2 * (64 * item.rule.number + item.done) + 1, item.start⟩

/-- The item expects the category `c` next. -/
def Item.expects [DecidableEq C] (c : C) (item : Item T C F) : Bool :=
  match item.todo with
  | .category d :: _ => d = c
  | _ => false

/-- The item expects a terminal next. -/
def Item.expectsTerminal (item : Item T C F) : Bool :=
  match item.todo with
  | .terminal _ :: _ => true
  | _ => false

/-- The item after one more symbol, with its readings kept in `node`. -/
def Item.next (item : Item T C F) (node : NodeRef) : Item T C F :=
  { item with done := item.done + 1, todo := item.todo.tail, node := some node }

/-! ## Nodes -/

/-- The nodes of one position and kind while they are filled: their keys, the latest first, and
their readings, the latest first. -/
structure Nodes (T C F : Type) where
  /-- The keys with their slots. -/
  slots : List (Key × Nat) := []
  /-- The readings of every slot. -/
  readings : Array (List (Reading T C F)) := #[]

/-- The slot of a key, if it has one. -/
def Nodes.slot? (nodes : Nodes T C F) (key : Key) : Option Nat :=
  (nodes.slots.find? (·.1 = key)).map (·.2)

/-- Add a reading to a slot. -/
def Nodes.extend (nodes : Nodes T C F) (slot : Nat) (reading : Reading T C F) : Nodes T C F :=
  { nodes with readings := nodes.readings.modify slot (reading :: ·) }

/-- Open a slot for a key with its first reading. -/
def Nodes.open (nodes : Nodes T C F) (key : Key) (reading : Reading T C F) : Nodes T C F :=
  { slots := (key, nodes.readings.size) :: nodes.slots
    readings := nodes.readings.push [reading] }

/-- A position of the text that has been passed. -/
structure Column (T C F : Type) where
  /-- Items that are finished or expect a category, the latest first. -/
  items : List (Item T C F)
  /-- The readings of items whose last symbol is a terminal. -/
  byTerminal : Nodes T C F
  /-- The readings of items whose last symbol is a category. -/
  byCategory : Nodes T C F

/-- The nodes of a position that are of one kind. -/
def Column.nodes (column : Column T C F) : Ending → Nodes T C F
  | .terminal => column.byTerminal
  | .category => column.byCategory

/-! ## Finishing and opening items -/

/-- The work at one position. -/
structure Work (T C F : Type) where
  /-- Keys of the items that have arrived at the position. -/
  arrived : List Key
  /-- Items that are finished or expect a category, the latest first. -/
  items : List (Item T C F)
  /-- Items that expect a terminal, the latest first. -/
  awaiting : List (Item T C F)
  /-- Items not yet looked at, the next one first. -/
  agenda : List (Item T C F)
  /-- The nodes of the items finished here. -/
  nodes : Nodes T C F
  /-- Categories whose rules have been opened here. -/
  opened : List C

/-- Put a new item where it belongs. -/
def Work.put (w : Work T C F) (item : Item T C F) : Work T C F :=
  if item.expectsTerminal then { w with awaiting := item :: w.awaiting }
  else { w with items := item :: w.items, agenda := item :: w.agenda }

/-- Read one more symbol of `item`, a category with readings `last`.  An item that has arrived at
the position already keeps the readings it arrived with. -/
def Work.advance (g : Grammar T C F) (here : Nat) (last : NodeRef) (w : Work T C F)
    (item : Item T C F) : Work T C F :=
  let reading : Reading T C F := ⟨item.rule, item.node, .category last⟩
  let ref : NodeRef := ⟨here, .category, w.nodes.readings.size⟩
  let new := item.next ref
  let key := new.key g
  match w.nodes.slot? key with
  | some slot => { w with nodes := w.nodes.extend slot reading }
  | none =>
    let w := { w with nodes := w.nodes.open key reading }
    if w.arrived.contains key then w else w.put new

/-- Open the rules of category `c` and of all categories it can begin with. -/
def Work.openCategory [DecidableEq C] (g : Grammar T C F) (here : Nat) (w : Work T C F) (c : C) :
    Work T C F :=
  if w.opened.contains c then w
  else (g.openingsOf c).foldl (fun w d =>
    if w.opened.contains d then w
    else (g.rulesOf d).foldl (fun w r => w.put ⟨r, 0, r.body, here, none⟩)
      { w with opened := d :: w.opened }) w

/-- Look at one item: a finished one moves on those that wait for it, another one opens the
category it expects. -/
def Work.step [DecidableEq C] (g : Grammar T C F) (columns : Array (Column T C F)) (here : Nat)
    (w : Work T C F) (item : Item T C F) : Work T C F :=
  match item.todo, item.node with
  | [], some node =>
    match columns[item.start]? with
    | some column =>
      (column.items.filter (Item.expects item.rule.head)).reverse.foldl
        (Work.advance g here node) w
    | none => w
  | .category c :: _, _ => w.openCategory g here c
  | _, _ => w

/-- Work the agenda off. -/
def Work.run [DecidableEq C] (g : Grammar T C F) (columns : Array (Column T C F)) (here : Nat) :
    (fuel : Nat) → Work T C F → Work T C F
  | 0, w => w
  | fuel + 1, w =>
    match w.agenda with
    | [] => w
    | item :: agenda =>
      Work.run g columns here fuel (Work.step g columns here { w with agenda } item)

/-! ## Moving over the text -/

/-- An item that will arrive at a later position, with the terminal that brings it there, or
carried over a gap. -/
structure Arrival (T C F : Type) where
  /-- The item before it moves. -/
  item : Item T C F
  /-- The terminal and the positions it covers. -/
  passed : Option (T × Nat × Nat)

/-- Everything known about a text up to a position. -/
structure Chart (T C F : Type) where
  /-- The columns of the positions passed. -/
  columns : Array (Column T C F)
  /-- Items at the position that are finished or expect a category, the latest first. -/
  items : List (Item T C F)
  /-- Items at the position that expect a terminal, the latest first. -/
  awaiting : List (Item T C F)
  /-- Categories whose rules have been opened at the position. -/
  opened : List C
  /-- The nodes of the items that a terminal has brought here. -/
  nodes : Nodes T C F
  /-- Arrivals at the positions that follow, each position's latest first. -/
  coming : List (List (Arrival T C F))

/-- Announce arrivals `distance + 1` positions ahead. -/
def announce (arrivals : List (Arrival T C F)) :
    (distance : Nat) → List (List (Arrival T C F)) → List (List (Arrival T C F))
  | 0, [] => [arrivals]
  | 0, now :: later => (arrivals ++ now) :: later
  | distance + 1, [] => [] :: announce arrivals distance []
  | distance + 1, now :: later => now :: announce arrivals distance later

/-- The chart at the beginning of a text of category `goal`. -/
def Chart.start [DecidableEq C] (g : Grammar T C F) (goal : C) : Chart T C F :=
  let w : Work T C F := Work.openCategory g 0 ⟨[], [], [], [], {}, []⟩ goal
  ⟨#[], w.items, w.awaiting, w.opened, {}, []⟩

/-- Finish and open items at position `here`; the result has a column for it. -/
def Chart.settle [DecidableEq C] (g : Grammar T C F) (chart : Chart T C F) (here : Nat) :
    Chart T C F :=
  let w : Work T C F :=
    { arrived := (chart.items ++ chart.awaiting).map (Item.key g)
      items := chart.items, awaiting := chart.awaiting, agenda := chart.items
      nodes := {}, opened := chart.opened }
  let w := Work.run g chart.columns here (g.extent * (here + 1)) w
  { chart with
    columns := chart.columns.push ⟨w.items, chart.nodes, w.nodes⟩
    items := w.items, awaiting := w.awaiting }

/-- Announce what the terminals and gaps at position `here` bring; `rest` is the text from there.
A finished text of category `goal` is carried over gaps as well. -/
def Chart.scan [DecidableEq C] (g : Grammar T C F) (goal : C) (chart : Chart T C F) (here : Nat)
    (rest : Text) : Chart T C F :=
  let items := chart.awaiting.reverse
  let coming := items.foldl (fun coming item =>
    match item.todo with
    | .terminal t :: _ =>
      match g.measure t rest with
      | some (length + 1) => announce [⟨item, some (t, here, here + length + 1)⟩] length coming
      | _ => coming
    | _ => coming) chart.coming
  let complete := chart.items.reverse.filter fun item =>
    item.todo.isEmpty && item.rule.head = goal && item.start = 0
  let carried := ((items ++ complete).map fun item => (⟨item, none⟩ : Arrival T C F)).reverse
  let coming := g.gaps.foldl (fun coming gap =>
    match gap rest with
    | some (length + 1) => announce carried length coming
    | _ => coming) coming
  { chart with coming }

/-- Put an item where it belongs, unless one with its key is there. -/
def Chart.put (g : Grammar T C F) (chart : Chart T C F) (item : Item T C F) : Chart T C F :=
  if (chart.items ++ chart.awaiting).any fun other => other.key g = item.key g then chart
  else if item.expectsTerminal then { chart with awaiting := item :: chart.awaiting }
  else { chart with items := item :: chart.items }

/-- Let one item arrive at position `here`. -/
def Chart.arrive (g : Grammar T C F) (here : Nat) (chart : Chart T C F)
    (arrival : Arrival T C F) : Chart T C F :=
  match arrival.passed with
  | none => chart.put g arrival.item
  | some (t, start, stop) =>
    let reading : Reading T C F := ⟨arrival.item.rule, arrival.item.node, .terminal t start stop⟩
    let new := arrival.item.next ⟨here, .terminal, chart.nodes.readings.size⟩
    let key := new.key g
    match chart.nodes.slot? key with
    | some slot => { chart with nodes := chart.nodes.extend slot reading }
    | none => Chart.put g { chart with nodes := chart.nodes.open key reading } new

/-- Move to position `here`, where the next announced items arrive. -/
def Chart.move (g : Grammar T C F) (chart : Chart T C F) (here : Nat) : Chart T C F :=
  let chart := { chart with items := [], awaiting := [], opened := [], nodes := {} }
  match chart.coming with
  | [] => chart
  | now :: later => now.reverse.foldl (Chart.arrive g here) { chart with coming := later }

/-- No reading goes on from here. -/
def Chart.isStuck (chart : Chart T C F) : Bool :=
  chart.items.isEmpty && chart.awaiting.isEmpty && chart.coming.isEmpty

/-- Why a text has no reading. -/
inductive Failure where
  /-- No reading goes on after the character at this position. -/
  | unexpected (position : Nat) (c : Char)
  /-- The text ends before a reading is complete. -/
  | unfinished

/-- Fill the chart over the text from position `here` on. -/
def Chart.fill [DecidableEq C] (g : Grammar T C F) (goal : C) :
    (here : Nat) → Text → Chart T C F → Except Failure (Chart T C F)
  | here, [], chart => .ok (chart.settle g here)
  | here, c :: rest, chart =>
    let chart := ((chart.settle g here).scan g goal here (c :: rest)).move g (here + 1)
    if chart.isStuck then .error (.unexpected here c) else Chart.fill g goal (here + 1) rest chart

end SkinCompiler.Grammar
