import Mcp.Spy.Inference

namespace Mcp.Spy
open Mcp.Lib Entries SchemaNode

namespace SchemaNode

mutual

def merge : SchemaNode → SchemaNode → SchemaNode
  | n, ⟨observations, types, properties, propSeen, items⟩ =>
    { observations := n.observations + observations
      types := fun t => n.types t || types t
      propSeen := fun key => n.propSeen key + propSeen key
      properties := mergeProperties n.properties properties
      items := mergeItems n.items items }

def mergeProperties : List (String × SchemaNode) → List (String × SchemaNode) → List (String × SchemaNode)
  | properties, [] => properties
  | properties, (key, child) :: rest =>
    mergeProperties (upsert key (fun dst => merge (dst.getD newSchemaNode) child) properties) rest

def mergeItems : Option SchemaNode → Option SchemaNode → Option SchemaNode
  | items, none => items
  | items, some other => some (merge (items.getD newSchemaNode) other)

end

theorem merge_eq (n m : SchemaNode) : n.merge m =
    ⟨n.observations + m.observations, fun t => n.types t || m.types t, mergeProperties n.properties m.properties,
      fun key => n.propSeen key + m.propSeen key, mergeItems n.items m.items⟩ := by
  cases m
  rw [merge]

variable {properties others : List (String × SchemaNode)}

theorem sorted_mergeProperties (sorted : Sorted properties) : Sorted (mergeProperties properties others) := by
  induction others generalizing properties with
  | nil => rwa [mergeProperties]
  | cons entry rest ih =>
    rw [mergeProperties]
    exact ih (sorted_upsert sorted)

theorem lookup_mergeProperties (sorted : Sorted properties) (sorted' : Sorted others) (key : String) :
    (mergeProperties properties others).lookup key = match others.lookup key with
      | none => properties.lookup key
      | some child => some (merge ((properties.lookup key).getD newSchemaNode) child) := by
  induction others generalizing properties with
  | nil => simp [mergeProperties]
  | cons entry rest ih =>
    obtain ⟨k, child⟩ := entry
    obtain ⟨later, sorted''⟩ := sorted_cons.mp sorted'
    rw [mergeProperties, ih (sorted_upsert sorted) sorted'']
    by_cases same : key = k
    · subst same
      have absent : rest.lookup key = none := by
        rw [← Option.not_isSome_iff_eq_none, lookup_isSome_iff]
        exact fun member => lt_irrefl _ (later key member)
      simp [absent, lookup_upsert_self sorted]
    · simp [List.lookup_cons, beq_eq_false_iff_ne.mpr same, lookup_upsert_of_ne same]

end SchemaNode

variable {n m : SchemaNode} {xs ys : List Any}

theorem Describes.merge (second : Describes m ys) (first : Describes n xs) : Describes (n.merge m) (xs ++ ys) := by
  induction second generalizing n xs with
  | @mk m ys observations types propSeen sorted present properties some_items items ihProperties ihItems =>
    have child := first.child
    have node := first.itemsNode
    obtain ⟨observations', types', propSeen', sorted', present', properties', some_items', items'⟩ := first
    have members (key : String) : membersOf key (xs ++ ys) = membersOf key xs ++ membersOf key ys :=
      List.filterMap_append
    have elements : elementsOf (xs ++ ys) = elementsOf xs ++ elementsOf ys := List.flatMap_append
    have lookup := lookup_mergeProperties sorted' sorted
    rw [merge_eq]
    refine .mk ?_ ?_ ?_ (sorted_mergeProperties sorted') ?_ ?_ ?_ ?_
    · simp [observations, observations']
    · simp [types, types', or_and_right, exists_or]
    · simp [members, propSeen, propSeen']
    · intro key
      rw [← lookup_isSome_iff, lookup, members, ne_eq, List.append_eq_nil_iff, not_and_or, ← ne_eq, ← ne_eq, ← present,
        ← present', ← lookup_isSome_iff, ← lookup_isSome_iff]
      cases m.properties.lookup key <;> simp
    · intro key merged found
      rw [lookup] at found
      rw [members]
      cases stored : m.properties.lookup key with
      | none =>
        have unseen : membersOf key ys = [] := by
          by_contra seen
          rw [← ne_eq, ← present, ← lookup_isSome_iff, stored] at seen
          cases seen
        rw [stored] at found
        rw [unseen, List.append_nil]
        exact properties' key merged found
      | some other =>
        rw [stored] at found
        cases found
        exact ihProperties key other stored (child key)
    · rw [elements, ne_eq, List.append_eq_nil_iff, not_and_or, ← ne_eq, ← ne_eq, ← some_items, ← some_items']
      cases m.items <;> simp [mergeItems]
    · intro merged found
      rw [elements]
      cases stored : m.items with
      | none =>
        have unseen : elementsOf ys = [] := by
          by_contra seen
          rw [← ne_eq, ← some_items, stored] at seen
          cases seen
        rw [stored, mergeItems] at found
        rw [unseen, List.append_nil]
        exact items' merged found
      | some other =>
        rw [stored, mergeItems] at found
        cases found
        exact ihItems other stored node

theorem eq_of_isSome_iff {τ : Type*} {a b : Option τ} (both : a.isSome ↔ b.isSome)
    (same : ∀ x y, a = some x → b = some y → x = y) : a = b := by
  cases a with
  | none | some => cases b <;> simp_all

theorem Describes.unique (first : Describes n xs) (second : Describes m ys) (perm : xs.Perm ys) : n = m := by
  induction first generalizing m ys with
  | @mk n xs observations types propSeen sorted present properties some_items items ihProperties ihItems =>
    obtain ⟨observations', types', propSeen', sorted', present', properties', some_items', items'⟩ := second
    have members (key : String) : (membersOf key xs).Perm (membersOf key ys) := perm.filterMap _
    have elements : (elementsOf xs).Perm (elementsOf ys) := perm.flatMap_right _
    have sameProperties : n.properties = m.properties := by
      refine sorted_ext sorted sorted' fun key => eq_of_isSome_iff ?_ fun child child' found found' => ?_
      · rw [lookup_isSome_iff, lookup_isSome_iff, present, present', ← List.length_pos_iff, ← List.length_pos_iff,
          (members key).length_eq]
      · exact ihProperties key child found (properties' key child' found') (members key)
    have sameItems : n.items = m.items := by
      refine eq_of_isSome_iff ?_ fun child child' found found' => ?_
      · rw [some_items, some_items', ← List.length_pos_iff, ← List.length_pos_iff, elements.length_eq]
      · exact ihItems child found (items' child' found') elements
    have sameTypes : n.types = m.types := by
      funext t
      rw [Bool.eq_iff_iff, types, types']
      exact exists_congr fun v => and_congr_left fun _ => perm.mem_iff
    have sameSeen : n.propSeen = m.propSeen := by
      funext key
      rw [propSeen, propSeen', (members key).length_eq]
    have sameCount : n.observations = m.observations := by rw [observations, observations', perm.length_eq]
    cases n
    cases m
    simp only [mk.injEq]
    exact ⟨sameCount, sameTypes, sameProperties, sameSeen, sameItems⟩

theorem value_order_free_and_mergeable (xs ys : List Json) :
    (∀ zs : List Json, zs.Perm xs →
      (observeAll (zs.map Json.decode)).value = (observeAll (xs.map Json.decode)).value) ∧
    ((observeAll (xs.map Json.decode)).merge (observeAll (ys.map Json.decode))).value =
      (observeAll ((xs ++ ys).map Json.decode)).value := by
  constructor
  · intro zs perm
    rw [(describes_decoded zs).unique (describes_decoded xs) (perm.map _)]
  · have merged := (describes_decoded ys).merge (describes_decoded xs)
    rw [← List.map_append] at merged
    rw [merged.unique (describes_decoded (xs ++ ys)) (List.Perm.refl _)]

end Mcp.Spy
