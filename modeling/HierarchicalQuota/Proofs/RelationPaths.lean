import HierarchicalQuota.RelationPath
import Mathlib.Data.List.Forall2
import Mathlib.Data.List.TakeWhile

namespace HierarchicalQuota

namespace Text

section Segments

variable {separator : Char} {text : List Char} {segments : List (List Char)}

/-- The segments of a text contain no separator, and joined by separators they are the text. -/
structure Segments (separator : Char) (text : List Char) (segments : List (List Char)) : Prop where
  nonempty : segments ≠ []
  apart : ∀ segment ∈ segments, separator ∉ segment
  joined : join separator segments = text

/-- A text that is split at its dots is put together again with dots. -/
theorem join_split (separator : Char) (text : List Char) :
    join separator (split separator text) = text := by
  induction text with
  | nil => rfl
  | cons char rest inductionHypothesis =>
      obtain ⟨first, others, pieces⟩ := List.exists_cons_of_ne_nil (split_ne_nil separator rest)
      rw [pieces] at inductionHypothesis
      rw [split]
      split
      · rename_i same
        rw [pieces, join, inductionHypothesis, same, List.nil_append]
      · -- The character goes to the front of the first segment of the rest.
        rw [pieces]
        cases others with
        | nil => rw [join, ← inductionHypothesis, join]
        | cons next others => rw [join, List.cons_append, ← inductionHypothesis, join]

/-- A text has exactly one list of segments. -/
theorem segments_iff : Segments separator text segments ↔ segments = split separator text := by
  constructor
  · rintro ⟨nonempty, apart, rfl⟩
    exact (split_join nonempty apart).symm
  · rintro rfl
    exact ⟨split_ne_nil separator text, separator_not_mem_split separator text,
      join_split separator text⟩

end Segments

section Trimming

/-- A text is trimmed to a bare middle if nothing but blanks is taken away on both sides. -/
structure TrimsTo (text middle : List Char) : Prop where
  bare : isTrimmed middle
  around : ∃ front back, text = front ++ middle ++ back ∧
    (∀ char ∈ front, isBlank char) ∧ ∀ char ∈ back, isBlank char

/-- A trimmed text is what is left of the text without the blanks around it. -/
theorem trimsTo_trim (text : List Char) : TrimsTo text (trim text) where
  bare := isTrimmed_trim text
  around := by
    let rest := text.dropWhile isBlank
    refine ⟨text.takeWhile isBlank, (rest.reverse.takeWhile isBlank).reverse, ?_, ?_, ?_⟩
    · have ending : rest = trim text ++ (rest.reverse.takeWhile isBlank).reverse := by
        rw [trim, ← List.reverse_append, List.takeWhile_append_dropWhile, List.reverse_reverse]
      rw [List.append_assoc, ← ending, List.takeWhile_append_dropWhile]
    · exact fun char member => List.mem_takeWhile_imp member
    · exact fun char member => List.mem_takeWhile_imp (List.mem_reverse.1 member)

/-- What is left of a text is empty exactly if the text has nothing but blanks. -/
theorem trim_eq_nil_iff (text : List Char) : trim text = [] ↔ ∀ char ∈ text, isBlank char := by
  constructor
  · intro empty
    obtain ⟨front, back, isText, frontBlank, backBlank⟩ := (trimsTo_trim text).around
    rw [empty, List.append_nil] at isText
    rw [isText]
    intro char member
    exact (List.mem_append.1 member).elim (frontBlank char) (backBlank char)
  · intro blank
    rw [trim, List.dropWhile_eq_nil_iff.2 blank]
    rfl

end Trimming

end Text

namespace RelationPath

open Text (Segments TrimsTo isBlank isTrimmed)

variable {path : RelationPath}

/-- A hop is a text without dots and without blanks around it, and it is not empty. -/
theorem isHop_iff (hop : String) :
    isHop hop = true ↔ hop ≠ "" ∧ '.' ∉ hop.toList ∧ isTrimmed hop.toList := by
  simp [isHop, and_assoc]

theorem isHop_of_mem {hop : String} (member : hop ∈ path.hops) : isHop hop = true :=
  List.all_eq_true.1 path.valid hop member

/-- The written form of a path splits into its hops. -/
theorem split_text (path : RelationPath) :
    Text.split '.' path.text.toList = path.hops.map String.toList := by
  rw [text, String.toList_ofList]
  refine Text.split_join (by simpa using path.nonempty) fun segment member => ?_
  obtain ⟨hop, hopMember, rfl⟩ := List.mem_map.1 member
  exact ((isHop_iff hop).1 (isHop_of_mem hopMember)).2.1

/-- Paths with one written form are one path. -/
theorem text_injective {first second : RelationPath} (same : first.text = second.text) :
    first = second := by
  have hops : first.hops.map String.toList = second.hops.map String.toList := by
    rw [← split_text, ← split_text, same]
  exact RelationPath.ext (List.map_injective_iff.2 (fun _ _ => String.toList_inj.1) hops)

/-- The segments of the written form are the hops. -/
theorem segments_text (path : RelationPath) : segments path.text = path.hops.map String.toList := by
  rw [segments, split_text, List.map_map]
  apply List.map_congr_left
  intro hop member
  exact Text.trim_of_isTrimmed ((isHop_iff hop).1 (isHop_of_mem member)).2.2

/-- A text is read if no segment is left empty, and then its hops are what is left. -/
theorem parse_eq_ok_iff {text : String} :
    parse text = .ok path ↔ (∀ segment ∈ segments text, segment ≠ []) ∧
      path.hops = (segments text).map String.ofList := by
  have full : ((segments text).all fun segment => !segment.isEmpty) = true ↔
      ∀ segment ∈ segments text, segment ≠ [] := by
    simp [List.all_eq_true]
  rw [parse]
  split
  · rename_i nonblank
    rw [Except.ok.injEq, RelationPath.ext_iff]
    exact ⟨fun hops => ⟨full.1 nonblank, hops.symm⟩, fun read => read.2.symm⟩
  · rename_i blank
    exact ⟨by rintro ⟨⟩, fun read => absurd (full.2 read.1) blank⟩

/-- The written form of a path is read as that path. -/
theorem parse_text (path : RelationPath) : parse path.text = .ok path := by
  rw [parse_eq_ok_iff, segments_text]
  constructor
  · intro segment member
    obtain ⟨hop, hopMember, rfl⟩ := List.mem_map.1 member
    simpa using ((isHop_iff hop).1 (isHop_of_mem hopMember)).1
  · simp

/-- A text is read as a path if each of its segments has a character that is not blank. -/
theorem exists_parse_iff (text : String) :
    (∃ path, parse text = .ok path) ↔
      ∀ segment ∈ Text.split '.' text.toList, ∃ char ∈ segment, isBlank char = false := by
  have remains : (∀ segment ∈ segments text, segment ≠ []) ↔
      ∀ segment ∈ Text.split '.' text.toList, ∃ char ∈ segment, isBlank char = false := by
    simp [segments, Text.trim_eq_nil_iff]
  rw [← remains]
  constructor
  · rintro ⟨path, read⟩
    exact (parse_eq_ok_iff.1 read).1
  · intro full
    have nonblank : ((segments text).all fun segment => !segment.isEmpty) = true := by
      simpa [List.all_eq_true] using full
    exact ⟨⟨(segments text).map String.ofList, by simp [segments, Text.split_ne_nil],
      all_isHop_segments nonblank⟩, parse_eq_ok_iff.2 ⟨full, rfl⟩⟩

/-- The error tells the whole text that could not be read. -/
theorem eq_of_parse_eq_error {text : String} {error : QuotaError}
    (fails : parse text = .error error) : error = .invalidPath text := by
  rw [parse] at fails
  split at fails
  · cases fails
  · exact (Except.error.inj fails).symm

/-- A path reads some segments if its hops are these without the blanks around them, and every hop is
a bare name. -/
structure Reads (path : RelationPath) (segments : List (List Char)) : Prop where
  trims : List.Forall₂ TrimsTo segments (path.hops.map String.toList)
  full : ∀ hop ∈ path.hops, hop ≠ ""
  dotless : ∀ hop ∈ path.hops, '.' ∉ hop.toList
  starts : ∀ hop ∈ path.hops, ∀ char ∈ hop.toList.head?, isBlank char = false
  ends : ∀ hop ∈ path.hops, ∀ char ∈ hop.toList.getLast?, isBlank char = false

/-- A path that is read has the trimmed segments as its hops. -/
theorem reads_of_parse {text : String} (read : parse text = .ok path) :
    path.Reads (Text.split '.' text.toList) where
  trims := by
    have hops : path.hops.map String.toList = (Text.split '.' text.toList).map Text.trim := by
      have inverse : String.toList ∘ String.ofList = id := funext fun _ => String.toList_ofList
      rw [(parse_eq_ok_iff.1 read).2, List.map_map, inverse, List.map_id, segments]
    rw [hops, List.forall₂_map_right_iff, List.forall₂_same]
    exact fun segment _ => Text.trimsTo_trim segment
  full hop member := ((isHop_iff hop).1 (isHop_of_mem member)).1
  dotless hop member := ((isHop_iff hop).1 (isHop_of_mem member)).2.1
  starts hop member :=
    ((Text.isTrimmed_iff _).1 ((isHop_iff hop).1 (isHop_of_mem member)).2.2).1
  ends hop member :=
    ((Text.isTrimmed_iff _).1 ((isHop_iff hop).1 (isHop_of_mem member)).2.2).2

/-- A text is read as a path exactly if every segment between its dots has more than blanks, and the
path then reads these segments. Every other text is refused and named in the error. The written form is
canonical: it is read as the path itself, and two texts are read as one path exactly if they are read as
paths of one written form. -/
theorem parse_canonical (text other : String) :
    ∃ segments, (∀ pieces, Segments '.' text.toList pieces ↔ pieces = segments) ∧
      ((∃ path, parse text = .ok path) ↔
        ∀ segment ∈ segments, ∃ char ∈ segment, isBlank char = false) ∧
      (match parse text with
        | .ok path => path.Reads segments ∧ parse path.text = .ok path
        | .error error => error = .invalidPath text) ∧
      ((∃ path, parse text = .ok path ∧ parse other = .ok path) ↔
        ∃ path otherPath, parse text = .ok path ∧ parse other = .ok otherPath ∧
          path.text = otherPath.text) := by
  refine ⟨Text.split '.' text.toList, fun _ => Text.segments_iff, exists_parse_iff text, ?_, ?_⟩
  · cases read : parse text with
    | ok path => exact ⟨reads_of_parse read, parse_text path⟩
    | error error => exact eq_of_parse_eq_error read
  · constructor
    · rintro ⟨path, read, otherRead⟩
      exact ⟨path, path, read, otherRead, rfl⟩
    · rintro ⟨path, otherPath, read, otherRead, same⟩
      obtain rfl := text_injective same
      exact ⟨path, read, otherRead⟩

end RelationPath

end HierarchicalQuota
