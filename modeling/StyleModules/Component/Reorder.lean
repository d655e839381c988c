import StyleModules.Sheet.Node

/-!
# Ordering a stylesheet by use

A component's stylesheet follows the component: the rules of used classes come first, in the order
of use, and a used class without a rule gets an empty one. Statements that mention no class follow
as they were. Rules whose classes are all unused are kept with a marker if they have content, and
dropped if they have none.
-/

namespace StyleModules

/-- The comment that marks a rule without use. -/
def unusedMarker : Text := "/* unused class */".toList

/-- The comment is a marker of an earlier run. -/
def isStaleMarker (comment : Text) : Bool :=
  Text.occursIn "UNUSED".toList comment || comment == unusedMarker

namespace Node

/-- Remove earlier markers, and set a fresh one if the node is unused. -/
def mark (unused : Bool) (node : Node) : Node :=
  { node with
    comments := (if unused then [unusedMarker] else []) ++ node.comments.filter (!isStaleMarker ·) }

/-- The node is a rule for the class. -/
def mentions (node : Node) (name : Text) : Bool := node.classes.contains name

/-- What becomes of a statement that no used class takes. -/
def settle (node : Node) : List Node :=
  if node.classes.isEmpty then [node]
  else if node.hasContent then [node.mark true]
  else []

end Node

/-- Give each used class in turn its rules among the remaining statements, or an empty rule if no
statement at all mentions it. The second part of the result is what no used class takes. -/
def gatherRules (all : List Node) : List Text → List Node → List Node × List Node
  | [], remaining => ([], remaining)
  | name :: used, remaining =>
    let rules :=
      if all.any (·.mentions name) then
        (remaining.filter (·.mentions name)).map (Node.mark false)
      else [Node.emptyBlock ('.' :: name)]
    let later := gatherRules all used (remaining.filter (!·.mentions name))
    (rules ++ later.1, later.2)

/-- The statements of a stylesheet in the order of the classes used. -/
def orderByUse (used : List Text) (children : List Node) : List Node :=
  let gathered := gatherRules children used children
  gathered.1 ++ gathered.2.flatMap Node.settle

/-- The stylesheet in the order of the classes used. -/
def Node.orderByUse (root : Node) (used : List Text) : Node :=
  { root with children := StyleModules.orderByUse used root.children }

end StyleModules
