/-
This file defines relation paths, their written form and their reader.
-/

import HierarchicalQuota.Error
import HierarchicalQuota.Text.Blank
import HierarchicalQuota.Text.Split

namespace HierarchicalQuota

/-- A hop is a name without dots that neither starts nor ends with a blank. -/
def isHop (hop : String) : Bool :=
  !hop.toList.isEmpty && !hop.toList.contains '.' && Text.isTrimmed hop.toList

/-- A relation path leads from one entity to another along named relations. -/
@[ext] structure RelationPath where
  hops : List String
  nonempty : hops ≠ []
  valid : hops.all isHop = true
deriving DecidableEq

namespace RelationPath

/-- The written form of a path joins its hops with dots. -/
def text (path : RelationPath) : String :=
  String.ofList (Text.join '.' (path.hops.map String.toList))

instance : ToString RelationPath := ⟨text⟩

/-- The segments of a written path lie between its dots, without the blanks around them. -/
def segments (text : String) : List (List Char) := (Text.split '.' text.toList).map Text.trim

theorem all_isHop_segments {text : String}
    (nonblank : ((segments text).all fun segment => !segment.isEmpty) = true) :
    ((segments text).map String.ofList).all isHop = true := by
  rw [List.all_map, List.all_eq_true]
  intro segment member
  have full := List.all_eq_true.1 nonblank segment member
  obtain ⟨raw, raw_mem, rfl⟩ := List.mem_map.1 member
  have dotless : '.' ∉ Text.trim raw := fun dot =>
    Text.separator_not_mem_split '.' text.toList raw raw_mem (Text.trim_subset raw dot)
  have trimmed := Text.isTrimmed_trim raw
  simp_all [isHop]

/-- Reading a path fails if a segment has nothing but blanks. -/
def parse (text : String) : Except QuotaError RelationPath :=
  if nonblank : ((segments text).all fun segment => !segment.isEmpty) = true then
    .ok
      { hops := (segments text).map String.ofList
        nonempty := by simp [segments, Text.split_ne_nil]
        valid := all_isHop_segments nonblank }
  else
    .error (.invalidPath text)

end RelationPath

end HierarchicalQuota
