import HierarchicalQuota.Engine.Recalculation
import HierarchicalQuota.Proofs.Hierarchy

namespace HierarchicalQuota.Graph

variable {graph : Graph}

/-- A table ranks its scopes if it knows the parents of each, and all of them less deep. -/
def Ranked (graph : Graph) (known : Table Entity Nat) : Prop :=
  ∀ (scope : Entity) (depth : Nat), known[scope]? = some depth →
    ∀ parent ∈ graph.quotaParents scope, ∃ above, known[parent]? = some above ∧ above < depth

/-- Nothing is ranked before the search. -/
theorem ranked_empty (graph : Graph) : graph.Ranked ∅ := by
  intro scope depth found
  simp at found

/-- Everything above a known scope is known and less deep. -/
theorem Ranked.above {known : Table Entity Nat} (ranked : graph.Ranked known) {scope other : Entity}
    (above : graph.Above scope other) {depth : Nat} (found : known[scope]? = some depth) :
    ∃ less, known[other]? = some less ∧ less < depth := by
  induction above with
  | single hop => exact ranked scope depth found _ hop
  | tail _ hop inductionHypothesis =>
      obtain ⟨middle, middleFound, middleLess⟩ := inductionHypothesis
      obtain ⟨less, lessFound, lower⟩ := ranked _ middle middleFound _ hop
      exact ⟨less, lessFound, by omega⟩

/-- A scope with a depth is on no cycle, because depths grow along quota parents. -/
theorem Ranked.not_above_self {known : Table Entity Nat} (ranked : graph.Ranked known)
    {scope : Entity} {depth : Nat} (found : known[scope]? = some depth) :
    ¬ graph.Above scope scope := by
  intro above
  obtain ⟨less, lessFound, lower⟩ := ranked.above above found
  rw [found] at lessFound
  obtain rfl := Option.some.inj lessFound
  omega

/-- A search adds ranked scopes from where it went and keeps what was known. -/
structure Searched (graph : Graph) (visited : Entity → Prop) (before after : Table Entity Nat) :
    Prop where
  ranked : graph.Ranked after
  kept : ∀ (scope : Entity) (depth : Nat), before[scope]? = some depth → after[scope]? = some depth
  fresh : ∀ (scope : Entity) (depth : Nat),
    after[scope]? = some depth → before[scope]? = some depth ∨ visited scope

/-- A search that visits nothing leaves a ranked table. -/
theorem Searched.refl {visited : Entity → Prop} {known : Table Entity Nat}
    (ranked : graph.Ranked known) : graph.Searched visited known known :=
  ⟨ranked, fun _ _ found => found, fun _ _ found => .inl found⟩

/-- Two searches one after the other keep what either of them has found. -/
theorem Searched.trans {visited : Entity → Prop} {before middle after : Table Entity Nat}
    (first : graph.Searched visited before middle) (second : graph.Searched visited middle after) :
    graph.Searched visited before after where
  ranked := second.ranked
  kept scope depth found := second.kept scope depth (first.kept scope depth found)
  fresh scope depth found := (second.fresh scope depth found).elim
    (fun earlier => first.fresh scope depth earlier) .inr

/-- A search that stays among some scopes stays among more of them. -/
theorem Searched.mono {visited wider : Entity → Prop} {before after : Table Entity Nat}
    (searched : graph.Searched visited before after)
    (wide : ∀ scope, visited scope → wider scope) : graph.Searched wider before after where
  ranked := searched.ranked
  kept := searched.kept
  fresh scope depth found := (searched.fresh scope depth found).imp_right (wide scope)

/-- A scope is entered into the table after all its parents. -/
theorem Searched.insert {scope : Entity} {before after : Table Entity Nat} {depth : Nat}
    (searched : graph.Searched (graph.Above scope) before after) (unmet : after[scope]? = none)
    (parents : ∀ parent ∈ graph.quotaParents scope,
      ∃ above, after[parent]? = some above ∧ above < depth) :
    graph.Searched (fun other => other = scope ∨ graph.Above scope other) before
      (after.insert scope depth) := by
  have old : ∀ (other : Entity) (value : Nat), after[other]? = some value →
      (after.insert scope depth)[other]? = some value := by
    intro other value found
    rw [Std.ExtTreeMap.getElem?_insert, if_neg]
    · exact found
    · intro same
      rw [Std.LawfulEqOrd.eq_of_compare same, found] at unmet
      cases unmet
  have new : ∀ (other : Entity) (value : Nat), (after.insert scope depth)[other]? = some value →
      (other = scope ∧ value = depth) ∨ after[other]? = some value := by
    intro other value found
    rw [Std.ExtTreeMap.getElem?_insert] at found
    split at found
    · rename_i same
      exact .inl ⟨(Std.LawfulEqOrd.eq_of_compare same).symm, (Option.some.inj found).symm⟩
    · exact .inr found
  refine ⟨?_, fun other value found => old other value (searched.kept other value found), ?_⟩
  · intro other value found parent hop
    rcases new other value found with ⟨rfl, rfl⟩ | earlier
    · obtain ⟨above, present, lower⟩ := parents parent hop
      exact ⟨above, old parent above present, lower⟩
    · obtain ⟨above, present, lower⟩ := searched.ranked other value earlier parent hop
      exact ⟨above, old parent above present, lower⟩
  · intro other value found
    rcases new other value found with ⟨rfl, -⟩ | earlier
    · exact .inr (.inl rfl)
    · exact (searched.fresh other value earlier).imp_right .inr

/-- What the search from one scope finds. -/
def Finds (graph : Graph) (scope : Entity) (before : Table Entity Nat) (depth : Nat)
    (after : Table Entity Nat) : Prop :=
  graph.Searched (fun other => other = scope ∨ graph.Above scope other) before after ∧
    after[scope]? = some depth

/-- One parent is searched, and the depth right below it is taken if it is greater. -/
def deepen (graph : Graph) (levels : Nat) (found : Nat × Table Entity Nat) (parent : Entity) :
    Except QuotaError (Nat × Table Entity Nat) := do
  let (above, known) ← graph.depth levels parent found.2
  return (max found.1 (above + 1), known)

/-- A scope that is not known is searched through its parents, and then kept. -/
theorem depth_succ (levels : Nat) (scope : Entity) (known : Table Entity Nat) :
    graph.depth (levels + 1) scope known =
      match known[scope]? with
      | some depth => .ok (depth, known)
      | none => (graph.quotaParents scope).foldlM (graph.deepen levels) (0, known) >>=
          fun found => .ok (found.1, found.2.insert scope found.1) := by
  rw [Graph.depth]
  cases known[scope]? <;> rfl

/-- The search goes from parent to parent and takes the greatest depth. -/
theorem finds_parents {levels : Nat} {scope : Entity}
    (each : ∀ (parent : Entity) (known later : Table Entity Nat) (depth : Nat),
      graph.Ranked known → graph.depth levels parent known = .ok (depth, later) →
      graph.Finds parent known depth later)
    (parents : List Entity) (hops : ∀ parent ∈ parents, parent ∈ graph.quotaParents scope)
    {start depth : Nat} {known later : Table Entity Nat} (ranked : graph.Ranked known)
    (run : parents.foldlM (graph.deepen levels) (start, known) = .ok (depth, later)) :
    graph.Searched (graph.Above scope) known later ∧ start ≤ depth ∧
      ∀ parent ∈ parents, ∃ above, later[parent]? = some above ∧ above < depth := by
  induction parents generalizing start known with
  | nil =>
      cases run
      exact ⟨.refl ranked, Nat.le_refl _, by simp⟩
  | cons parent parents inductionHypothesis =>
      rw [List.foldlM_cons, deepen] at run
      dsimp only at run
      cases found : graph.depth levels parent known with
      | error error =>
          rw [found] at run
          cases run
      | ok result =>
          obtain ⟨above, middle⟩ := result
          rw [found] at run
          obtain ⟨searched, present⟩ := each parent known middle above ranked found
          have hop := hops parent List.mem_cons_self
          have first : graph.Searched (graph.Above scope) known middle := by
            refine searched.mono ?_
            rintro other (rfl | higher)
            · exact .single hop
            · exact .head hop higher
          obtain ⟨rest, bound, others⟩ := inductionHypothesis
            (fun other member => hops other (List.mem_cons_of_mem _ member)) first.ranked run
          refine ⟨first.trans rest, by omega, fun other member => ?_⟩
          rcases List.mem_cons.1 member with rfl | later
          · exact ⟨above, rest.kept _ _ present, by omega⟩
          · exact others other later

/-- A search that succeeds ranks the scope and all that it has visited. The induction is on the
levels that are left. -/
theorem finds_depth (levels : Nat) (scope : Entity) (known later : Table Entity Nat) (depth : Nat)
    (ranked : graph.Ranked known) (run : graph.depth levels scope known = .ok (depth, later)) :
    graph.Finds scope known depth later := by
  induction levels generalizing scope known later depth with
  | zero =>
      unfold Graph.depth at run
      cases found : known[scope]? with
      | none =>
          rw [found] at run
          cases run
      | some value =>
          rw [found] at run
          cases run
          exact ⟨.refl ranked, found⟩
  | succ levels inductionHypothesis =>
      rw [depth_succ] at run
      cases found : known[scope]? with
      | some value =>
          rw [found] at run
          cases run
          exact ⟨.refl ranked, found⟩
      | none =>
          rw [found] at run
          dsimp only at run
          cases folded : (graph.quotaParents scope).foldlM (graph.deepen levels) (0, known) with
          | error error =>
              rw [folded] at run
              cases run
          | ok result =>
              obtain ⟨value, middle⟩ := result
              rw [folded] at run
              cases run
              obtain ⟨searched, -, parents⟩ := finds_parents
                (fun parent known later depth => inductionHypothesis parent known later depth)
                (graph.quotaParents scope) (fun _ member => member) ranked folded
              -- A scope that was met on the way up would be above itself.
              have unmet : middle[scope]? = none := by
                cases met : middle[scope]? with
                | none => rfl
                | some earlier =>
                    rcases searched.fresh scope earlier met with old | above
                    · rw [found] at old
                      cases old
                    · exact absurd above (searched.ranked.not_above_self met)
              exact ⟨searched.insert unmet parents, by simp⟩

/-- The depths of several scopes are those of one table that ranks them all. -/
theorem ranked_of_depths (scopes : List Entity) (known : Table Entity Nat)
    (entries : List (Nat × Entity)) (ranked : graph.Ranked known)
    (run : graph.depths scopes known = .ok entries) :
    entries.map Prod.snd = scopes ∧ ∃ table : Table Entity Nat, graph.Ranked table ∧
      (∀ (scope : Entity) (depth : Nat), known[scope]? = some depth →
        table[scope]? = some depth) ∧
      ∀ entry ∈ entries, table[entry.2]? = some entry.1 := by
  induction scopes generalizing known entries with
  | nil =>
      cases run
      exact ⟨rfl, known, ranked, fun _ _ found => found, by simp⟩
  | cons scope scopes inductionHypothesis =>
      unfold Graph.depths at run
      cases found : graph.depth maxHierarchyDepth scope known with
      | error error =>
          rw [found] at run
          cases run
      | ok result =>
          obtain ⟨depth, middle⟩ := result
          rw [found] at run
          cases others : graph.depths scopes middle with
          | error error =>
              have failed : (graph.depths scopes middle >>= fun others =>
                  pure ((depth, scope) :: others)) = .ok entries := run
              rw [others] at failed
              cases failed
          | ok rest =>
              have returned : (graph.depths scopes middle >>= fun others =>
                  pure ((depth, scope) :: others)) = .ok entries := run
              rw [others] at returned
              cases returned
              obtain ⟨searched, present⟩ :=
                finds_depth maxHierarchyDepth scope known middle depth ranked found
              obtain ⟨sameScopes, table, rankedTable, kept, listed⟩ :=
                inductionHypothesis middle rest searched.ranked others
              refine ⟨by rw [List.map_cons, sameScopes], table, rankedTable,
                fun other value earlier => kept other value (searched.kept other value earlier),
                fun entry member => ?_⟩
              rcases List.mem_cons.1 member with rfl | later
              · exact kept scope depth present
              · exact listed entry later

/-- A scope that does not climb beyond the levels has a depth. -/
theorem depth_isOk (levels : Nat) (scope : Entity) (known : Table Entity Nat)
    (low : ¬ graph.Climbs levels scope) : ∃ result, graph.depth levels scope known = .ok result := by
  induction levels generalizing scope known with
  | zero => exact absurd trivial low
  | succ levels inductionHypothesis =>
      rw [depth_succ]
      cases known[scope]? with
      | some depth => exact ⟨_, rfl⟩
      | none =>
          have parents : ∀ parents : List Entity,
              (∀ parent ∈ parents, parent ∈ graph.quotaParents scope) →
              ∀ start, ∃ result, parents.foldlM (graph.deepen levels) start = .ok result := by
            intro parents
            induction parents with
            | nil => exact fun _ start => ⟨start, rfl⟩
            | cons parent parents others =>
                intro hops start
                obtain ⟨⟨above, middle⟩, found⟩ := inductionHypothesis parent start.2
                  fun climbs => low ⟨parent, hops parent List.mem_cons_self, climbs⟩
                rw [List.foldlM_cons, deepen, found]
                exact others (fun other member => hops other (List.mem_cons_of_mem _ member)) _
          obtain ⟨found, folded⟩ := parents _ (fun _ member => member) (0, known)
          dsimp only
          rw [folded]
          exact ⟨_, rfl⟩

/-- The depths are found of scopes that do not climb to the depth bound. -/
theorem depths_isOk_of_low {scopes : List Entity}
    (low : ∀ scope ∈ scopes, ¬ graph.Climbs maxHierarchyDepth scope) (known : Table Entity Nat) :
    ∃ entries, graph.depths scopes known = .ok entries := by
  induction scopes generalizing known with
  | nil => exact ⟨[], rfl⟩
  | cons scope scopes inductionHypothesis =>
      obtain ⟨⟨depth, middle⟩, found⟩ :=
        depth_isOk maxHierarchyDepth scope known (low scope List.mem_cons_self)
      obtain ⟨rest, others⟩ := inductionHypothesis
        (fun other member => low other (List.mem_cons_of_mem _ member)) middle
      refine ⟨(depth, scope) :: rest, ?_⟩
      unfold Graph.depths
      rw [found]
      change (graph.depths scopes middle >>= fun others => pure ((depth, scope) :: others)) = _
      rw [others]
      rfl

/-- In a shallow hierarchy all depths are found. -/
theorem depths_isOk (shallow : graph.Shallow) (scopes : List Entity) (known : Table Entity Nat) :
    ∃ entries, graph.depths scopes known = .ok entries :=
  depths_isOk_of_low (fun scope _ => shallow scope) known

end HierarchicalQuota.Graph
