import HierarchicalQuota.Inventory.Snapshot
import HierarchicalQuota.Proofs.Json.Parse

namespace HierarchicalQuota

namespace Json

section Legibility

/-- The items of an array are legible one by one. -/
theorem areLegible_iff (items : List Json) : AreLegible items ↔ ∀ item ∈ items, item.IsLegible := by
  induction items with
  | nil => simp [AreLegible]
  | cons item items inductionHypothesis => simp [AreLegible, inductionHypothesis]

/-- An array is legible if its items are. -/
@[simp] theorem isLegible_array (items : List Json) :
    (array items).IsLegible ↔ ∀ item ∈ items, item.IsLegible := by
  rw [IsLegible, areLegible_iff]

/-- A record is legible if its members are, whatever their keys. -/
@[simp] theorem isLegible_record (members : List (String × Json)) :
    (record members).IsLegible ↔ ∀ member ∈ members, member.2.IsLegible := by
  rw [record, IsLegible]
  induction members with
  | nil => simp [AreMembersLegible]
  | cons member members inductionHypothesis => simp [AreMembersLegible, inductionHypothesis]

@[simp] theorem isLegible_text (content : String) : (text content).IsLegible := trivial

/-- An integer is written as a numeral that is read as itself. -/
@[simp] theorem isLegible_integer (value : Int) : (integer value).IsLegible :=
  Numeral.isLegible_ofInt value

@[simp] theorem isLegible_amount (value : Amount) : (amount value).IsLegible :=
  isLegible_integer value.value

/-- A table is legible if its values are written legibly. -/
theorem isLegible_table {ν : Type} {write : ν → Json} (legible : ∀ value, (write value).IsLegible)
    (entries : Table String ν) : (table write entries).IsLegible := by
  rw [table, isLegible_record, List.forall_mem_map]
  exact fun entry _ => legible entry.2

end Legibility

section Reading

@[simp] theorem text?_text (content : String) : (text content).text? = some content := rfl

@[simp] theorem integer?_integer (value : Int) : (integer value).integer? = some value :=
  Numeral.toInt?_ofInt value

/-- An amount is read back, because it is in range. -/
@[simp] theorem amount?_amount (value : Amount) : (amount value).amount? = some value := by
  rw [amount?, amount, integer?_integer]
  exact Amount.ofInt?_value value

/-- A count is read back if it fits into 64 bits. -/
@[simp] theorem count?_integer (value : Nat) :
    (integer value).count? = if value ≤ 18446744073709551615 then some value else none := by
  have fits : (value : Int) ≤ 18446744073709551615 ↔ value ≤ 18446744073709551615 := by omega
  simp [count?, fits]

/-- A count that is read fits into 64 bits. -/
theorem le_of_count? {value : Json} {count : Nat} (reads : value.count? = some count) :
    count ≤ 18446744073709551615 := by
  cases found : value.integer? with
  | none => simp [count?, found] at reads
  | some integer =>
      simp only [count?, found, Option.bind_eq_bind, Option.bind_some] at reads
      split at reads
      · obtain rfl := Option.some.inj reads
        omega
      · cases reads

/-- All items of a list are read if each one is. -/
theorem mapM_of_reads {α β : Type} {read : α → Option β} {result : α → β} {items : List α}
    (reads : ∀ item ∈ items, read item = some (result item)) :
    items.mapM read = some (items.map result) := by
  induction items with
  | nil => rfl
  | cons item items inductionHypothesis =>
      obtain ⟨first, others⟩ := List.forall_mem_cons.1 reads
      simp [List.mapM_cons, first, inductionHypothesis others]

variable {members : List (String × Json)}

/-- The members of a record have different keys, so each key leads to its own member. -/
theorem member?_record (distinct : (members.map Prod.fst).Nodup) {member : String × Json}
    (isMember : member ∈ members) :
    member? (members.map fun member => (some member.1, member.2)) member.1 = some member.2 := by
  induction members with
  | nil => cases isMember
  | cons first members inductionHypothesis =>
      obtain ⟨new, others⟩ := List.nodup_cons.1 distinct
      rcases List.mem_cons.1 isMember with rfl | later
      · simp [member?]
      · have different : first.1 ≠ member.1 := by
          intro same
          exact new (same ▸ List.mem_map_of_mem later)
        have skips : member? ((first :: members).map fun member => (some member.1, member.2))
            member.1 = member? (members.map fun member => (some member.1, member.2)) member.1 := by
          simp [member?, different]
        rw [skips]
        exact inductionHypothesis others later

/-- A record has each of its keys once. -/
theorem areUnambiguous_record (distinct : (members.map Prod.fst).Nodup) (keys : List String) :
    areUnambiguous keys (members.map fun member => (some member.1, member.2)) = true := by
  have once (key : String) :
      ((members.map fun member => (some member.1, member.2)).filter
        fun member => member.1 = some key).length ≤ 1 := by
    have counted : ((members.map fun member => (some member.1, member.2)).filter
        fun member => member.1 = some key).length = (members.map Prod.fst).count key := by
      rw [List.count, List.countP_map, List.filter_map, List.length_map,
        ← List.countP_eq_length_filter]
      congr 1
      ext member
      simp [beq_eq_decide]
    rw [counted]
    exact List.nodup_iff_count.1 distinct key
  simp [areUnambiguous, once]

/-- The fields of a record are read in the order in which they are written. -/
theorem fields?_record (distinct : (members.map Prod.fst).Nodup) :
    (record members).fields? (members.map Prod.fst) = some (members.map Prod.snd) := by
  have found : (members.map Prod.fst).mapM
      (member? (members.map fun member => (some member.1, member.2))) =
        some (members.map Prod.snd) := by
    rw [List.mapM_map]
    exact mapM_of_reads fun member isMember => member?_record distinct isMember
  rw [record, fields?, if_pos (areUnambiguous_record distinct _), found]

/-- The entries of a table have different keys, so a table made of them is the same table. -/
theorem ofList_toList {ν : Type} (entries : Table String ν) :
    Std.ExtTreeMap.ofList entries.toList compare = entries := by
  apply Std.ExtTreeMap.ext_getElem?
  intro key
  cases found : entries[key]? with
  | none =>
      apply Std.ExtTreeMap.getElem?_ofList_of_contains_eq_false
      rw [Std.ExtTreeMap.map_fst_toList_eq_keys, Std.ExtTreeMap.contains_keys,
        Std.ExtTreeMap.contains_eq_isSome_getElem?, found, Option.isSome_none]
  | some value =>
      exact Std.ExtTreeMap.getElem?_ofList_of_mem Std.ReflCmp.compare_self
        Std.ExtTreeMap.distinct_keys_toList
        (Std.ExtTreeMap.mem_toList_iff_getElem?_eq_some.2 found)

/-- A table is read back entry by entry. -/
theorem table?_table {ν : Type} {write : ν → Json} {read : Json → Option ν}
    (reads : ∀ value, read (write value) = some value) (entries : Table String ν) :
    (table write entries).table? read = some entries := by
  have inserted (listed : List (String × ν)) (start : Table String ν) :
      (((listed.map fun entry => (entry.1, write entry.2)).map fun member =>
        (some member.1, member.2)).foldlM
          (fun table member => do
            let key ← member.1
            let value ← read member.2
            return table.insert key value) start) = some (start.insertMany listed) := by
    induction listed generalizing start with
    | nil => simp
    | cons entry listed inductionHypothesis =>
        rw [List.map_cons, List.map_cons, List.foldlM_cons, reads, Std.ExtTreeMap.insertMany_cons]
        exact inductionHypothesis (start.insert entry.1 entry.2)
  rw [table, record, table?, inserted, ← Std.ExtTreeMap.ofList_eq_insertMany_empty, ofList_toList]

end Reading

section Texts

variable {α : Type} (write : α → Json) (read : Json → Option α)

/-- A text is accepted as the value that its JSON is read as. -/
def accept (text : String) : Option α := (parse text).bind read

/-- The normal form of a text is the compact text of the value that it is accepted as. -/
def normalForm (text : String) : Option String :=
  (accept read text).map fun value => (write value).print

/-- A form is faithful to the values that fit into it if it reads these and no others, and each of
them as it has been written. -/
structure Faithful (Fits : α → Prop) : Prop where
  legible : ∀ value, (write value).IsLegible
  reads : ∀ value, Fits value → read (write value) = some value
  fits : ∀ json value, read json = some value → Fits value

/-- The values that fit are read back from their own texts, and so is every value that any text is
accepted as. Normal forms are normal, and texts share one exactly if they stand for the same value. -/
structure RoundTrips (Fits : α → Prop) : Prop where
  printed : ∀ value, Fits value → accept read (write value).print = some value
  accepted : ∀ text value, accept read text = some value →
    Fits value ∧ accept read (write value).print = some value
  normal : ∀ text form, normalForm write read text = some form →
    normalForm write read form = some form
  unique : ∀ text other, normalForm write read text = normalForm write read other ↔
    accept read text = accept read other

variable {write read} {Fits : α → Prop}

/-- A value that fits is accepted from its own text. -/
theorem Faithful.accept_print (faithful : Faithful write read Fits) {value : α} (fits : Fits value) :
    accept read (write value).print = some value := by
  rw [accept, (faithful.legible value).parse_print]
  exact faithful.reads value fits

/-- Only values that fit are accepted, from whatever text. -/
theorem Faithful.fits_of_accept (faithful : Faithful write read Fits) {text : String} {value : α}
    (accepted : accept read text = some value) : Fits value := by
  obtain ⟨json, -, reads⟩ := Option.bind_eq_some_iff.1 accepted
  exact faithful.fits json value reads

/-- The text of an accepted value determines the value, so it determines what has been accepted. -/
theorem Faithful.roundTrips (faithful : Faithful write read Fits) : RoundTrips write read Fits where
  printed _ fits := faithful.accept_print fits
  accepted _ _ accepted :=
    have fits := faithful.fits_of_accept accepted
    ⟨fits, faithful.accept_print fits⟩
  normal text form found := by
    obtain ⟨value, accepted, rfl⟩ := Option.map_eq_some_iff.1 found
    rw [normalForm, faithful.accept_print (faithful.fits_of_accept accepted)]
    rfl
  unique text other := by
    constructor
    · intro same
      have back (text : String) : (normalForm write read text).bind (accept read) =
          accept read text := by
        rw [normalForm]
        cases accepted : accept read text with
        | none => rfl
        | some value => exact faithful.accept_print (faithful.fits_of_accept accepted)
      rw [← back text, same, back other]
    · intro same
      rw [normalForm, same, normalForm]

end Texts

end Json

open Json (Faithful)

/-- An entity has two members, both of them texts. -/
theorem Entity.faithful : Faithful toJson ofJson? fun _ => True where
  legible entity := by simp [toJson]
  reads entity _ := by
    have fields : entity.toJson.fields? ["type", "id"] = some [.text entity.kind, .text entity.id] :=
      Json.fields?_record (by simp)
    simp [ofJson?, fields]
  fits _ _ _ := trivial

/-- A record has the members of its scope, its name and its quota. -/
theorem Record.faithful : Faithful toJson ofJson? fun _ => True where
  legible record := by simp [toJson, Entity.faithful.legible]
  reads record _ := by
    have fields : record.toJson.fields? ["scope", "name", "limit", "usage"] =
        some [record.scope.toJson, .text record.name, .amount record.quota.limit,
          .amount record.quota.usage] := Json.fields?_record (by simp)
    simp [ofJson?, fields, Entity.faithful.reads]
  fits _ _ _ := trivial

/-- A measure is one of two words. -/
theorem Measure.faithful : Faithful toJson ofJson? fun _ => True where
  legible measure := by simp [toJson]
  reads measure _ := by cases measure <;> rfl
  fits _ _ _ := trivial

/-- The counts of a report fit into 64 bits. -/
structure Report.Fits (report : Report) : Prop where
  scopes : report.scopes ≤ 18446744073709551615
  created : report.created ≤ 18446744073709551615
  updated : report.updated ≤ 18446744073709551615

/-- A report reads its three counts only if they fit. -/
theorem Report.faithful : Faithful toJson ofJson? Fits where
  legible report := by simp [toJson]
  reads report fits := by
    have fields : report.toJson.fields? ["scopes", "records_created", "records_updated"] =
        some [.integer report.scopes, .integer report.created, .integer report.updated] :=
      Json.fields?_record (by simp)
    simp [ofJson?, fields, fits.scopes, fits.created, fits.updated]
  fits json report reads := by
    unfold ofJson? at reads
    split at reads
    · rename_i scopes created updated _
      obtain ⟨first, isFirst, reads⟩ := Option.bind_eq_some_iff.1 reads
      obtain ⟨second, isSecond, reads⟩ := Option.bind_eq_some_iff.1 reads
      obtain ⟨third, isThird, reads⟩ := Option.bind_eq_some_iff.1 reads
      obtain rfl := Option.some.inj reads
      exact ⟨Json.le_of_count? isFirst, Json.le_of_count? isSecond, Json.le_of_count? isThird⟩
    · cases reads

namespace InventoryItem

/-- A written item has no members but its own, so it is read at all levels. -/
theorem faithful (levels : Nat) : Faithful toJson (ofJson? levels) fun _ => True where
  legible item := by simp [toJson, Json.isLegible_table, Entity.faithful.legible]
  reads item _ := by
    have relations := Json.table?_table (fun entity => Entity.faithful.reads entity trivial)
      item.node.relations
    have attributes := Json.table?_table Json.amount?_amount item.node.attributes
    simp [toJson, ofJson?, Json.record, Json.areUnambiguous, Json.member?, keys, table?, relations,
      attributes]
  fits _ _ _ := trivial

end InventoryItem

/-- A snapshot has one member, the array of its items. -/
theorem Snapshot.faithful : Faithful toJson ofJson? fun _ => True where
  legible snapshot := by simp [toJson, (InventoryItem.faithful 0).legible]
  reads snapshot _ := by
    have items : (snapshot.items.map InventoryItem.toJson).mapM
        (InventoryItem.ofJson? (maxNesting - 3)) = some snapshot.items := by
      rw [List.mapM_map]
      exact (Json.mapM_of_reads fun item _ =>
        (InventoryItem.faithful (maxNesting - 3)).reads item trivial).trans
          (congrArg some (List.map_id snapshot.items))
    simp [toJson, ofJson?, itemsOfJson?, Json.record, Json.areUnambiguous, Json.member?, items]
  fits _ _ _ := trivial

/-- All values round-trip, except that a report has to fit into 64 bits. -/
theorem forms_roundTrip :
    Json.RoundTrips Entity.toJson Entity.ofJson? (fun _ => True) ∧
      (∀ levels, Json.RoundTrips InventoryItem.toJson (InventoryItem.ofJson? levels)
        fun _ => True) ∧
      Json.RoundTrips Record.toJson Record.ofJson? (fun _ => True) ∧
      Json.RoundTrips Measure.toJson Measure.ofJson? (fun _ => True) ∧
      Json.RoundTrips Report.toJson Report.ofJson? Report.Fits ∧
      Json.RoundTrips Snapshot.toJson Snapshot.ofJson? fun _ => True :=
  ⟨Entity.faithful.roundTrips, fun levels => (InventoryItem.faithful levels).roundTrips,
    Record.faithful.roundTrips, Measure.faithful.roundTrips, Report.faithful.roundTrips,
    Snapshot.faithful.roundTrips⟩

section Sample

/-- This text of an item has blanks, an escape and a member that items do not have, leaves the
attributes out, lists one relation twice and writes entities as arrays. -/
def sampleText : String :=
  " \x7b\"relations\": \x7b\"tenant\":[\"tenant\",\"7\"], \"project\":[\"project\",\"1\"], " ++
    "\"project\":[\"project\",\"2\"]\x7d, \"tags\":[true], \"id\":\"\\u0022\", \"type\":\"vm\"\x7d"

/-- Its normal form has all members in order, and the last of the two relations with one key. -/
def sampleForm : String :=
  "\x7b\"type\":\"vm\",\"id\":\"\\\"\",\"relations\":\x7b" ++
    "\"project\":\x7b\"type\":\"project\",\"id\":\"2\"\x7d," ++
    "\"tenant\":\x7b\"type\":\"tenant\",\"id\":\"7\"\x7d\x7d,\"attributes\":\x7b\x7d\x7d"

/-- An unusual text has a normal form, and the greatest count is read back. -/
theorem forms_roundTrip_sample :
    Json.normalForm InventoryItem.toJson (InventoryItem.ofJson? (Snapshot.maxNesting - 1))
        sampleText = some sampleForm ∧
      Json.normalForm InventoryItem.toJson (InventoryItem.ofJson? (Snapshot.maxNesting - 1))
        sampleForm = some sampleForm ∧
      Json.accept Report.ofJson? (Report.toJson ⟨18446744073709551615, 0, 1⟩).print =
        some ⟨18446744073709551615, 0, 1⟩ := by
  obtain ⟨-, items, -, -, reports, -⟩ := forms_roundTrip
  have accepted : Json.normalForm InventoryItem.toJson
      (InventoryItem.ofJson? (Snapshot.maxNesting - 1)) sampleText = some sampleForm := by
    decide +kernel
  have fits : Report.Fits ⟨18446744073709551615, 0, 1⟩ := ⟨by simp, by simp, by simp⟩
  exact ⟨accepted, (items _).normal _ _ accepted, reports.printed _ fits⟩

end Sample

end HierarchicalQuota
