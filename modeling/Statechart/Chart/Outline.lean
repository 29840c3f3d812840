import Statechart.Chart.Forest

/-!
# Outlines

The outline of a forest has one line for every live node, in order, with children indented by
two blanks below their parent.  A destroyed node is left out together with all that is below it.
-/

namespace Statechart.Forest

/-- The blanks in front of a line of the outline. -/
def outlineIndent : Nat → String
  | 0 => ""
  | depth + 1 => outlineIndent depth ++ "  "

/-- The outline of one tree, at most `bound` levels deep. -/
def outlineWithin (f : Forest) : Nat → Nat → NodeId → String
  | 0, _, _ => ""
  | bound + 1, depth, id =>
    match f.node? id with
    | none => ""
    | some node =>
      outlineIndent depth ++ node.text ++ "\n" ++
        String.join ((f.children id).map (f.outlineWithin bound (depth + 1)))

/-- The outline of the whole forest.  Every level but the last has a stored link to the next,
so the number of stored links bounds the number of levels. -/
def outline (f : Forest) : String :=
  String.join (f.roots.map (f.outlineWithin (f.links.size + 1) 0))

end Statechart.Forest
