import SkinCompiler.Proofs.Grammar.Shift
import SkinCompiler.Source.Productions

/-!
# What a module binds

The names that the imports and declarations of a module bind, and which of them it exports, read off
a derivation of the module.  Names bound inside of functions and blocks do not count.

* `bound` -- imported and declared names;
* `exported` -- names that are exported;
* `bindings` -- both.
-/

namespace SkinCompiler.Source

open Grammar

variable {d : Derivation Terminal Category Form} {ds : List (Derivation Terminal Category Form)}
  {rule rule' : Grammar.Rule Terminal Category Form} {a b : Nat} {w : Text}

/-! ## Names -/

/-- Names in texts of the category are bound by the construct that these stand in. -/
def Category.isOpen (c : Category) : Bool :=
  [.module, .items, .item, .importDeclaration, .importClause, .defaultImport, .namespaceImport,
    .namedImports, .moreImportSpecifiers, .importSpecifier, .exportDeclaration, .typeDeclaration,
    .declaration, .declarator, .moreDeclarators, .functionDeclaration, .pattern, .objectPattern,
    .propertyPattern, .morePropertyPatterns, .arrayPattern, .morePatterns, .statement].contains c

/-- The rule binds a name by which a property goes: that of an imported name, the one after `as` if
it is renamed, or that of a property without a pattern of its own. -/
def bindsProperty (rule : Grammar.Rule Terminal Category Form) : Bool :=
  rule.head = .importSpecifier ||
    rule.head = .propertyPattern && !rule.body.contains (.category .pattern)

/-- The property names in a row. -/
def properties (text : Text) (ds : List (Derivation Terminal Category Form)) : List Text :=
  ds.filterMap fun
    | .terminal .property start stop => some (Text.slice text start stop)
    | _ => none

mutual

/-- The names that a derivation binds for the construct that it stands in. -/
def bound (text : Text) : Derivation Terminal Category Form → List Text
  | .terminal t start stop => if t = .name then [Text.slice text start stop] else []
  | .node rule children =>
    if rule.head.isOpen then
      boundOfRow text children ++
        if bindsProperty rule then (properties text children).getLast?.toList else []
    else []

/-- The names that a row of derivations binds. -/
def boundOfRow (text : Text) : List (Derivation Terminal Category Form) → List Text
  | [] => []
  | d :: ds => bound text d ++ boundOfRow text ds

end

/-- A construct whose rule binds nothing by itself binds what its parts do. -/
theorem bound_node (text : Text) (hopen : rule.head.isOpen = true)
    (hproperty : bindsProperty rule = false) :
    bound text (.node rule ds) = boundOfRow text ds := by
  rw [bound, hopen, hproperty]
  simp

/-- Nothing that the symbol reads is bound by the construct that it stands in. -/
def bindsNothing : Grammar.Symbol Terminal Category → Bool
  | .terminal t => t ≠ .name
  | .category c => !c.isOpen

theorem bound_of_bindsNothing (text : Text) (h : bindsNothing d.symbol = true) :
    bound text d = [] := by
  cases d with
  | terminal t start stop =>
    have ht : t ≠ .name := by simpa [bindsNothing, Derivation.symbol] using h
    rw [bound, if_neg ht]
  | node rule children =>
    have hopen : rule.head.isOpen = false := by simpa [bindsNothing, Derivation.symbol] using h
    rw [bound, hopen]
    rfl

theorem boundOfRow_of_bindsNothing (text : Text)
    (h : ∀ s ∈ ds.map Derivation.symbol, bindsNothing s = true) : boundOfRow text ds = [] := by
  induction ds with
  | nil => rfl
  | cons d ds ih =>
    rw [boundOfRow, bound_of_bindsNothing text (h _ List.mem_cons_self),
      ih fun s hs => h s (List.mem_cons_of_mem _ hs), List.nil_append]

/-! ## Exports -/

mutual

/-- The names in an export list, as the module knows them. -/
def listed (text : Text) : Derivation Terminal Category Form → List Text
  | .terminal _ _ _ => []
  | .node rule children =>
    if rule.head = .exportSpecifier then (properties text children).head?.toList
    else if rule.head = .moreExportSpecifiers then listedOfRow text children
    else []

/-- The names in a part of an export list. -/
def listedOfRow (text : Text) : List (Derivation Terminal Category Form) → List Text
  | [] => []
  | d :: ds => listed text d ++ listedOfRow text ds

end

/-- The name that an expression is. -/
def loneName (text : Text) : Derivation Terminal Category Form → List Text
  | .terminal t start stop => if t = .name then [Text.slice text start stop] else []
  | .node _ [d] => loneName text d
  | .node _ _ => []

/-- The names that the parts of an export declaration export: those that they bind, a name that is
the default export, and those of a list that is not taken from another module. -/
def exportedBy (text : Text) (ds : List (Derivation Terminal Category Form)) : List Text :=
  boundOfRow text ds ++ ds.flatMap (loneName text) ++
    if (ds.map Derivation.symbol).contains (.terminal (.keyword "from")) then []
    else listedOfRow text ds

mutual

/-- The names that a part of a module exports. -/
def exported (text : Text) : Derivation Terminal Category Form → List Text
  | .terminal _ _ _ => []
  | .node rule children =>
    if rule.head = .exportDeclaration then exportedBy text children
    else if [Category.module, .items, .item].contains rule.head then exportedOfRow text children
    else []

/-- The names that parts of a module export. -/
def exportedOfRow (text : Text) : List (Derivation Terminal Category Form) → List Text
  | [] => []
  | d :: ds => exported text d ++ exportedOfRow text ds

end

/-- The export of a function, as an item, binds what the function binds, and exports it. -/
theorem bound_exported_function (text : Text) (hhead : rule.head = .item)
    (hhead' : rule'.head = .exportDeclaration) (hd : d.symbol = .category .functionDeclaration)
    (hname : loneName text d = []) :
    bound text (.node rule [.node rule' [.terminal (.keyword w) a b, d]]) = bound text d ∧
      exported text (.node rule [.node rule' [.terminal (.keyword w) a b, d]]) = bound text d := by
  have hproperty {r : Grammar.Rule Terminal Category Form}
      (h : r.head = .item ∨ r.head = .exportDeclaration) :
      r.head.isOpen = true ∧ bindsProperty r = false := by
    rcases h with h | h <;> simp [h, bindsProperty] <;> rfl
  have hrow : boundOfRow text [.terminal (.keyword w) a b, d] = bound text d := by
    rw [boundOfRow, boundOfRow, boundOfRow, bound, if_neg nofun, List.append_nil, List.nil_append]
  have hlisted : listed text d = [] := by
    cases d with
    | terminal _ _ _ => rfl
    | node r ds =>
      have hfunction : r.head = .functionDeclaration := by simpa [Derivation.symbol] using hd
      rw [listed, hfunction]
      rfl
  constructor
  · obtain ⟨hopen, hnone⟩ := hproperty (Or.inl hhead)
    obtain ⟨hopen', hnone'⟩ := hproperty (Or.inr hhead')
    rw [bound_node text hopen hnone, boundOfRow, boundOfRow, bound_node text hopen' hnone', hrow,
      List.append_nil]
  · have hexported : exported text (.node rule' [.terminal (.keyword w) a b, d]) = bound text d := by
      rw [exported, if_pos hhead', exportedBy, hrow]
      simp [hname, listedOfRow, listed, hlisted, loneName]
    rw [exported, hhead, if_neg (by decide), if_pos (by decide), exportedOfRow, exportedOfRow,
      hexported, List.append_nil]

/-! ## Modules -/

/-- What a module binds and exports. -/
structure Bindings where
  /-- The names that it binds. -/
  bound : List Text
  /-- The names that it exports. -/
  exported : List Text
  deriving DecidableEq

/-- What a derivation of a module binds and exports. -/
def bindings (text : Text) (d : Derivation Terminal Category Form) : Bindings :=
  ⟨bound text d, exported text d⟩

end SkinCompiler.Source
