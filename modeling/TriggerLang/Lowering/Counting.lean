import TriggerLang.Lowering.Emission
/-!
# Counting hits over several branches

A repeated disjunction counts the hits of all its branches together.  Every branch but the last one
adds its hits to the next, and the last one collects them: its hit count is the target.

A branch with a hit count of its own cannot collect.  If the last branch has one, the last branch
without one changes its place, and if every branch has one, a row that never holds collects.
-/

namespace TriggerLang

namespace Group

/-- A group as a branch whose hits are added to the next: the rows are conjoined, and the last one
adds. Groups with any other role are no branches. -/
def addingHits? : Group → Option Group
  | [] => some []
  | [row] => if row.role = .plain then some [row.withRole .addHits] else none
  | row :: next :: rows =>
      if row.role = .plain ∨ row.role = .andNext then
        (addingHits? (next :: rows)).map (row.withRole .andNext :: ·)
      else none

/-- Whether the last row of a group has a hit count. -/
def countsHits (g : Group) : Bool :=
  match g.getLast? with
  | none => false
  | some row => 0 < row.hits

/-- Branches in an order in which the last one can collect the hits. -/
def withCollector (branches : List Group) : List Group :=
  match branches.getLast? with
  | none => branches
  | some last =>
      if countsHits last then
        match LastElement.take? (fun g => !countsHits g) branches with
        | some (collector, others) => others ++ [collector]
        | none => branches ++ [[Row.alwaysFalse]]
      else branches

/-- Branches whose last one collects the hits of all. -/
def collectingHits (branches : List Group) : List Group :=
  LastElement.update (LastElement.update (·.withRole .plain)) (withCollector branches)

/-- The rows that count the hits of all groups together, if every group is a branch. -/
def countedRows? (groups : List Group) : Option (List Row) :=
  ((groups.filter (!·.isEmpty)).mapM addingHits?).map fun branches =>
    (collectingHits branches).flatten

end Group

end TriggerLang
