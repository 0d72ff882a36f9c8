import SkinCompiler.Text.Basic

/-!
# Grammars over characters

A grammar has no separate tokens: its terminals are measured in the text itself, at any position
where a rule can use them, and between two terminals a text may hold gaps (blanks, comments).
`T` are the terminals, `C` the categories and `F` the forms, that is, what a rule's reading means.

Productions are written with optional parts and choices; `Grammar.ofProductions` spreads them out
into plain rules and numbers the rules in the order written.  No category may be empty.
-/

namespace SkinCompiler.Grammar

variable {T C F : Type}

/-- One place in the body of a rule. -/
inductive Symbol (T C : Type) where
  /-- A terminal of the grammar. -/
  | terminal (t : T)
  /-- Any text of a category. -/
  | category (c : C)
  deriving DecidableEq

/-- A part of a production as written. -/
inductive Part (T C : Type) where
  /-- A single symbol. -/
  | one (s : Symbol T C)
  /-- One of several sequences, the preferred one first. -/
  | choice (options : List (List (Part T C)))

/-- A sequence that may be left out, which is second choice. -/
def Part.maybe (parts : List (Part T C)) : Part T C := .choice [parts, []]

mutual

/-- The sequences of symbols that a part stands for, in order of preference. -/
def Part.spread : Part T C → List (List (Symbol T C))
  | .one s => [[s]]
  | .choice options => spreadChoice options

/-- The sequences of symbols of a row of parts; an earlier part weighs more. -/
def spreadRow : List (Part T C) → List (List (Symbol T C))
  | [] => [[]]
  | part :: parts =>
    (part.spread).flatMap fun first => (spreadRow parts).map fun rest => first ++ rest

/-- The sequences of symbols of a choice. -/
def spreadChoice : List (List (Part T C)) → List (List (Symbol T C))
  | [] => []
  | row :: rows => spreadRow row ++ spreadChoice rows

end

/-- One way to read a category, as written. -/
structure Production (T C F : Type) where
  /-- What is read, in order. -/
  parts : List (Part T C)
  /-- What the reading means. -/
  form : F

/-- One way to read a category, as a plain sequence of symbols. -/
structure Rule (T C F : Type) where
  /-- The place of the rule in its grammar; of two readings of the same text as the same
  category the one with the smaller number is preferred. -/
  number : Nat
  /-- The category that the rule reads. -/
  head : C
  /-- What is read, in order. -/
  body : List (Symbol T C)
  /-- What the reading means. -/
  form : F
  deriving DecidableEq

/-- The rules of one category, numbered from `first` on. -/
def Rule.ofProductions (c : C) (first : Nat) (productions : List (Production T C F)) :
    List (Rule T C F) :=
  let bodies := productions.flatMap fun p => (spreadRow p.parts).map fun body => (body, p.form)
  (bodies.zipIdx first).map fun ((body, form), number) => ⟨number, c, body, form⟩

/-- The rules of all categories, each category with its own list. -/
def ruleTable (productions : C → List (Production T C F)) :
    (first : Nat) → List C → List (List (Rule T C F))
  | _, [] => []
  | first, c :: cs =>
    let rules := Rule.ofProductions c first (productions c)
    rules :: ruleTable productions (first + rules.length) cs

/-- The categories that the rules of `c` begin with. -/
def leads [DecidableEq C] (rules : List (Rule T C F)) : List C :=
  rules.filterMap fun r => match r.body with
    | .category c :: _ => some c
    | _ => none

/-- Breadth-first walk along a relation between categories, from those in `queue`; `seen` are the
categories that have stood in the queue. -/
def walk [DecidableEq C] (next : C → List C) : (fuel : Nat) → (queue seen : List C) → List C
  | 0, _, _ => []
  | _, [], _ => []
  | fuel + 1, c :: queue, seen =>
    let fresh := ((next c).filter fun d => !seen.contains d).eraseDups
    c :: walk next fuel (queue ++ fresh) (seen ++ fresh)

end Grammar

/-- A grammar with the tables that reading needs. -/
structure Grammar (T C F : Type) where
  /-- The place of a category in the tables. -/
  index : C → Nat
  /-- The rules of every category. -/
  rules : Array (List (Grammar.Rule T C F))
  /-- For every category those with which a text of it can begin, itself first. -/
  openings : Array (List C)
  /-- How much of a text, from its beginning, a terminal covers. -/
  measure : T → Text → Option Nat
  /-- How much of a text, from its beginning, each kind of gap covers. -/
  gaps : List (Text → Option Nat)

namespace Grammar

variable {T C F : Type}

/-- The rules of a category. -/
def rulesOf (g : Grammar T C F) (c : C) : List (Rule T C F) := g.rules.getD (g.index c) []

/-- The categories with which a text of category `c` can begin. -/
def openingsOf (g : Grammar T C F) (c : C) : List C := g.openings.getD (g.index c) []

/-- The number of places in all rules, ends included. -/
def extent (g : Grammar T C F) : Nat :=
  g.rules.foldl (fun n rules => rules.foldl (fun n r => n + r.body.length + 1) n) 0

/-- The grammar whose categories are listed in `all` and read by `productions`. -/
def ofProductions [DecidableEq C] (all : List C) (index : C → Nat)
    (productions : C → List (Production T C F)) (measure : T → Text → Option Nat)
    (gaps : List (Text → Option Nat)) : Grammar T C F :=
  let rules := (ruleTable productions 0 all).toArray
  let next c := leads (rules.getD (index c) [])
  { index, rules, measure, gaps
    openings := (all.map fun c => walk next all.length [c] [c]).toArray }

end SkinCompiler.Grammar
