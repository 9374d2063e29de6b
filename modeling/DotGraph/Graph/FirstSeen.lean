import Std.Data.HashSet

namespace DotGraph

/-! Ids in the order in which they are first seen, without repeats. -/

structure FirstSeen where
  order : Array String
  seen : Std.HashSet String

namespace FirstSeen

def empty : FirstSeen := ⟨#[], ∅⟩

def insert (ids : FirstSeen) (id : String) : FirstSeen :=
  if ids.seen.contains id then ids else ⟨ids.order.push id, ids.seen.insert id⟩

def insertAll (ids : FirstSeen) (more : List String) : FirstSeen :=
  more.foldl insert ids

def toList (ids : FirstSeen) : List String :=
  ids.order.toList

end FirstSeen

end DotGraph
