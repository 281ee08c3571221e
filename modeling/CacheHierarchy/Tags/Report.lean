import CacheHierarchy.Decimal.Layout
import CacheHierarchy.Tags.TagArray

/-!
# Reports on a tag array

The report gives the hit rate and the counters, the dump every way of every set.
-/

namespace CacheHierarchy

def headingRule : String := String.ofList (List.replicate 30 '-')

/-- One way in a dump: whether it is in use, whether it is dirty, and the tag. An empty way shows
as a clean line of tag zero. -/
def dumpWay : Option Line → String
  | some line =>
    "[1, " ++ (if line.dirty then "1" else "0") ++ ", " ++
      Text.rightAligned 10 (Text.hexDigits line.tag) ++ "] "
  | none => "[0, 0, " ++ Text.rightAligned 10 "0" ++ "] "

/-- One set in a dump. -/
def LineSet.dump (s : LineSet) : String := String.join (s.ways.map dumpWay) ++ "\n"

namespace TagArray

/-- The hit rate and the counters under a heading, without an end of line after the last. -/
def report (t : TagArray) : String :=
  headingRule ++ "\n" ++ t.name ++ " Hit Rate: " ++ Decimal.plain t.counters.hitRate ++ " % \n" ++
    headingRule ++ "\n" ++ t.counters.report

/-- Every set under a heading, one line each. -/
def dump (t : TagArray) : String :=
  headingRule ++ "\n" ++ t.name ++ " Tag Store\n" ++ headingRule ++ "\n" ++
    String.join (t.sets.toList.map LineSet.dump)

end TagArray

end CacheHierarchy
