import DotGraph.Proofs.Graph.Fields

namespace DotGraph

/-! What is read of attributes after they were written: the last value that a list gives a key. -/

theorem lookup_cons_eq (key : String) (entry : String × String)
    (entries : List (String × String)) :
    (entry :: entries).lookup key =
      if key = entry.1 then some entry.2 else entries.lookup key := by
  rw [List.lookup_cons]
  by_cases h : key = entry.1
  · rw [if_pos h, h, beq_self_eq_true]
  · rw [if_neg h, beq_false_of_ne h]

/-- The last value that the entries give a key. -/
def lastValue (key : String) (entries : List (String × String)) : Option String :=
  entries.reverse.lookup key

theorem lastValue_cons (key : String) (entry : String × String)
    (entries : List (String × String)) :
    lastValue key (entry :: entries) =
      (lastValue key entries).or (if key = entry.1 then some entry.2 else none) := by
  rw [lastValue, List.reverse_cons, List.lookup_append, lookup_cons_eq, lastValue, List.lookup_nil]

theorem lastValue_append (key : String) (front back : List (String × String)) :
    lastValue key (front ++ back) = (lastValue key back).or (lastValue key front) := by
  rw [lastValue, List.reverse_append, List.lookup_append]
  rfl

theorem lookup_eq_none_of_lt {key : String} {entries : List (String × String)}
    (h : ∀ entry ∈ entries, key < entry.1) : entries.lookup key = none := by
  rw [List.lookup_eq_none_iff]
  intro entry hmem
  exact bne_iff_ne.mpr (Std.ne_of_lt (h entry hmem))

/-- Where each key has one value, that is the last one. -/
theorem lastValue_of_increasing {entries : List (String × String)}
    (h : entries.Pairwise fun first second => first.1 < second.1) (key : String) :
    lastValue key entries = entries.lookup key := by
  induction entries with
  | nil => rfl
  | cons entry entries ih =>
      rw [lastValue_cons, ih h.of_cons, lookup_cons_eq]
      split
      · rename_i heq
        rw [lookup_eq_none_of_lt fun other hmem => heq ▸ List.rel_of_pairwise_cons h hmem]
        rfl
      · exact Option.or_none

/-- Where the keys increase, no key that has a value is smaller than the first one. -/
theorem le_of_lookup_eq_some {key value : String} {entry : String × String}
    {entries : List (String × String)}
    (h : (entry :: entries).Pairwise fun first second => first.1 < second.1)
    (hvalue : (entry :: entries).lookup key = some value) : entry.1 ≤ key := by
  refine String.not_lt.mp fun hlt => ?_
  have hnone : (entry :: entries).lookup key = none :=
    lookup_eq_none_of_lt fun other hmem => by
      rcases List.mem_cons.mp hmem with rfl | hmem
      · exact hlt
      · exact String.lt_trans hlt (List.rel_of_pairwise_cons h hmem)
  exact nomatch hnone.symm.trans hvalue

theorem eq_of_lookup {front back : List (String × String)}
    (hfront : front.Pairwise fun first second => first.1 < second.1)
    (hback : back.Pairwise fun first second => first.1 < second.1)
    (h : ∀ key, front.lookup key = back.lookup key) : front = back := by
  have hself : ∀ (entry : String × String) (entries : List (String × String)),
      (entry :: entries).lookup entry.1 = some entry.2 := fun entry entries => by
    rw [lookup_cons_eq, if_pos rfl]
  induction front generalizing back with
  | nil =>
      cases back with
      | nil => rfl
      | cons entry back => exact nomatch (h entry.1).trans (hself entry back)
  | cons entry front ih =>
      cases back with
      | nil => exact nomatch (h entry.1).symm.trans (hself entry front)
      | cons other back =>
          -- either list has the first key of the other one
          have hkey : entry.1 = other.1 := String.le_antisymm
            (le_of_lookup_eq_some hfront ((h other.1).trans (hself other back)))
            (le_of_lookup_eq_some hback ((h entry.1).symm.trans (hself entry front)))
          have hvalue : entry.2 = other.2 := by
            have hfirst := h entry.1
            rw [hself, hkey, hself] at hfirst
            exact Option.some.inj hfirst
          have hrest : front = back := by
            refine ih hfront.of_cons hback.of_cons fun key => ?_
            by_cases heq : key = entry.1
            · rw [heq, lookup_eq_none_of_lt fun later hmem => List.rel_of_pairwise_cons hfront hmem,
                hkey, lookup_eq_none_of_lt fun later hmem => List.rel_of_pairwise_cons hback hmem]
            · have hlater := h key
              rwa [lookup_cons_eq, if_neg heq, lookup_cons_eq, if_neg (hkey ▸ heq)] at hlater
          rw [hrest, Prod.ext hkey hvalue]

/-- What is read at every key after a list of writes is decided by what is read after one. -/
theorem read_foldl_set {α : Type} {set : α → String → String → α} {read : α → String → Option String}
    (hset : ∀ (x : α) (key value other : String),
      read (set x key value) other = if other = key then some value else read x other)
    (x : α) (entries : List (String × String)) (key : String) :
    read (entries.foldl (fun x entry => set x entry.1 entry.2) x) key =
      (lastValue key entries).or (read x key) := by
  induction entries generalizing x with
  | nil => rfl
  | cons entry entries ih =>
      rw [List.foldl_cons, ih, hset, lastValue_cons, Option.or_assoc]
      split <;> rfl

namespace Attributes

theorem lookup_insertEntry (key value other : String) (entries : List (String × String)) :
    (insertEntry key value entries).lookup other =
      if other = key then some value else entries.lookup other := by
  fun_induction insertEntry key value entries
  case case1 => rw [lookup_cons_eq]
  case case2 => rw [lookup_cons_eq]
  case case3 =>
    subst_vars
    rw [lookup_cons_eq, lookup_cons_eq]
    split <;> rfl
  case case4 entry entries _ hne ih =>
    rw [lookup_cons_eq, ih, lookup_cons_eq]
    by_cases h : other = entry.1
    · rw [if_pos h, if_pos h, if_neg]
      exact fun heq => hne (heq.symm.trans h)
    · rw [if_neg h, if_neg h]

theorem get?_set (attributes : Attributes) (key value other : String) :
    (attributes.set key value).get? other =
      if other = key then some value else attributes.get? other :=
  lookup_insertEntry key value other attributes.entries

theorem get?_setAll (attributes : Attributes) (entries : List (String × String)) (key : String) :
    (attributes.setAll entries).get? key = (lastValue key entries).or (attributes.get? key) :=
  read_foldl_set get?_set attributes entries key

/-- A map gives each key one value. -/
theorem lastValue_entries (attributes : Attributes) (key : String) :
    lastValue key attributes.entries = attributes.get? key :=
  lastValue_of_increasing attributes.increasing key

/-- Maps that give every key the same value are the same. -/
theorem eq_of_get? {first second : Attributes} (h : ∀ key, first.get? key = second.get? key) :
    first = second := by
  have hentries := eq_of_lookup first.increasing second.increasing h
  cases first
  cases second
  cases hentries
  rfl

end Attributes

namespace Graph

/-- The value that a node has for a key, in a field or in the map. -/
def Node.value? (node : Node) (key : String) : Option String :=
  match key with
  | "label" => some node.label
  | "color" => some node.color
  | "fillcolor" => some node.fillColor
  | "shape" => some node.shape
  | "style" => some node.style
  | key => node.attributes.get? key

theorem Node.value?_set (node : Node) (key value other : String) :
    (node.set key value).value? other = if other = key then some value else node.value? other := by
  unfold Node.set Node.value?
  split <;> split <;> simp_all [Attributes.get?_set, eq_comm]

theorem Node.value?_setAll (node : Node) (entries : List (String × String)) (key : String) :
    (node.setAll entries).value? key = (lastValue key entries).or (node.value? key) :=
  read_foldl_set Node.value?_set node entries key

theorem Node.value?_join (node : Node) (group : Option String) (key : String) :
    (node.join group).value? key = node.value? key := rfl

/-- Whether a value is the one that a node of that id starts with: its id for the label, and nothing
or an empty text for every other key. -/
def isUnsetValue (id key : String) (value : Option String) : Bool :=
  if key = "label" then value = some id else value.all String.isEmpty

theorem Node.isUnset_eq (node : Node) (key : String) :
    node.isUnset key = isUnsetValue node.id key (node.value? key) := by
  unfold Node.isUnset Node.value? isUnsetValue
  split <;> simp_all

theorem Node.value?_fillIn (node : Node) {entries : List (String × String)}
    (h : entries.Pairwise fun first second => first.1 < second.1) (key : String) :
    (node.fillIn entries).value? key =
      if isUnsetValue node.id key (node.value? key) then
        (entries.lookup key).or (node.value? key)
      else node.value? key := by
  unfold Node.fillIn
  induction entries generalizing node with
  | nil => simp
  | cons entry entries ih =>
      rw [List.foldl_cons, ih _ h.of_cons, lookup_cons_eq, node.isUnset_eq]
      by_cases hkey : key = entry.1
      · -- the keys increase, so that no entry behind this one has its key
        have hlater : entries.lookup key = none :=
          lookup_eq_none_of_lt fun other hmem => hkey ▸ List.rel_of_pairwise_cons h hmem
        rw [hlater, Option.none_or, ite_self, if_pos hkey, ← hkey]
        split
        · rw [value?_set, if_pos rfl, Option.some_or]
        · rfl
      · rw [if_neg hkey]
        split
        · rw [id_set, value?_set, if_neg hkey]
        · rfl

/-- The keys that have fields of their own. -/
def Node.fieldKeys : List String := ["label", "color", "fillcolor", "shape", "style"]

/-- A key with a field of its own is not written to the map. -/
theorem Node.get?_attributes_set {other : String} (hmem : other ∈ fieldKeys) (node : Node)
    (key value : String) :
    (node.set key value).attributes.get? other = node.attributes.get? other := by
  unfold Node.set
  split
  case h_6 hlabel hcolor hfill hshape hstyle =>
    rw [Attributes.get?_set, if_neg]
    rintro rfl
    simp_all [fieldKeys]
  all_goals rfl

/-- No key with a field of its own is found in the map. -/
def Node.Tidy (node : Node) : Prop :=
  ∀ key ∈ fieldKeys, node.attributes.get? key = none

theorem Node.tidy_named (id : String) : (Node.named id).Tidy :=
  fun _ _ => rfl

theorem Node.Tidy.set {node : Node} (h : node.Tidy) (key value : String) :
    (node.set key value).Tidy := by
  intro other hmem
  rw [Node.get?_attributes_set hmem]
  exact h other hmem

/-- The node without the values of its attributes. -/
def Node.withoutValues (node : Node) : Node where
  id := node.id
  group := node.group
  onPath := node.onPath
  pathInvalid := node.pathInvalid

theorem Node.withoutValues_set (node : Node) (key value : String) :
    (node.set key value).withoutValues = node.withoutValues := by
  unfold Node.set
  split <;> rfl

/-- A node is what is left of it without its values, and its values. -/
theorem Node.eq_of_value? {first second : Node}
    (hrest : first.withoutValues = second.withoutValues)
    (hfields : ∀ key ∈ fieldKeys, first.attributes.get? key = second.attributes.get? key)
    (h : ∀ key, first.value? key = second.value? key) : first = second := by
  have hattributes : first.attributes = second.attributes := by
    refine Attributes.eq_of_get? fun key => ?_
    by_cases hkey : key ∈ fieldKeys
    · exact hfields key hkey
    · have hvalue := h key
      unfold Node.value? at hvalue
      split at hvalue
      case h_6 => exact hvalue
      all_goals exact absurd (by decide) hkey
  have hlabel : first.label = second.label := Option.some.inj (h "label")
  have hcolor : first.color = second.color := Option.some.inj (h "color")
  have hfill : first.fillColor = second.fillColor := Option.some.inj (h "fillcolor")
  have hshape : first.shape = second.shape := Option.some.inj (h "shape")
  have hstyle : first.style = second.style := Option.some.inj (h "style")
  cases first
  cases second
  simp_all [Node.withoutValues]

/-- What is filled in once is filled in. -/
theorem Node.fillIn_again (node : Node) {entries : List (String × String)}
    (h : entries.Pairwise fun first second => first.1 < second.1) :
    (node.fillIn entries).fillIn entries = node.fillIn entries := by
  refine Node.eq_of_value? ?_ (fun key hmem => ?_) fun key => ?_
  · exact Node.forall_fillIn
      (P := fun new => new.withoutValues = (node.fillIn entries).withoutValues)
      (fun new key value hnew => (new.withoutValues_set key value).trans hnew) rfl entries
  · exact Node.forall_fillIn
      (P := fun new => new.attributes.get? key = (node.fillIn entries).attributes.get? key)
      (fun new other value hnew => (get?_attributes_set hmem new other value).trans hnew) rfl entries
  · rw [value?_fillIn _ h, id_fillIn, value?_fillIn _ h]
    by_cases hunset : isUnsetValue node.id key (node.value? key)
    · -- a default may be what the node starts with, and is then filled in again
      rw [if_pos hunset]
      split
      · cases entries.lookup key <;> rfl
      · rfl
    · rw [if_neg hunset, if_neg hunset]

theorem Node.fillIn_join (node : Node) (group : Option String)
    (entries : List (String × String)) :
    (node.join group).fillIn entries = (node.fillIn entries).join group := by
  have hset : ∀ (node : Node) (key value : String),
      (node.join group).set key value = (node.set key value).join group := by
    intro node key value
    unfold Node.set
    split <;> rfl
  refine List.foldl_hom (fun node : Node => node.join group) fun node entry => ?_
  have hunset : (node.join group).isUnset entry.1 = node.isUnset entry.1 := by
    rw [isUnset_eq, isUnset_eq, value?_join, id_join]
  rw [hunset, hset]
  split <;> rfl

theorem Node.join_again (node : Node) (group : Option String) :
    (node.join group).join group = node.join group := by
  unfold Node.join
  rw [Option.or_assoc, Option.or_self]

/-- The value that a link has for a key, in a field or in the map. -/
def Link.value? (link : Link) (key : String) : Option String :=
  match key with
  | "label" => some link.label
  | "color" => some link.color
  | "style" => some link.style
  | key => link.attributes.get? key

theorem Link.value?_set (link : Link) (key value other : String) :
    (link.set key value).value? other = if other = key then some value else link.value? other := by
  unfold Link.set Link.value?
  split <;> split <;> simp_all [Attributes.get?_set, eq_comm]

theorem Link.value?_setAll (link : Link) (entries : List (String × String)) (key : String) :
    (link.setAll entries).value? key = (lastValue key entries).or (link.value? key) :=
  read_foldl_set Link.value?_set link entries key

/-- The keys that have fields of their own. -/
def Link.fieldKeys : List String := ["label", "color", "style"]

/-- No key with a field of its own is found in the map. -/
def Link.Tidy (link : Link) : Prop :=
  ∀ key ∈ fieldKeys, link.attributes.get? key = none

theorem Link.Tidy.set {link : Link} (h : link.Tidy) (key value : String) :
    (link.set key value).Tidy := by
  unfold Link.set
  split
  case h_4 hlabel hcolor hstyle =>
    intro other hmem
    rw [Attributes.get?_set, if_neg]
    · exact h other hmem
    · rintro rfl
      simp_all [fieldKeys]
  all_goals exact h

theorem Link.Tidy.setAll {link : Link} (h : link.Tidy) (entries : List (String × String)) :
    (link.setAll entries).Tidy :=
  List.foldlRecOn (motive := Link.Tidy) entries _ h fun _ h entry _ => h.set entry.1 entry.2

theorem Link.onPath_setAll (link : Link) (entries : List (String × String)) :
    (link.setAll entries).onPath = link.onPath := by
  refine List.foldlRecOn (motive := fun new : Link => new.onPath = link.onPath) entries _ rfl
    fun new h entry _ => ?_
  unfold Link.set
  split <;> exact h

theorem Link.tidy_plain (source target : String) : Link.Tidy { source, target } :=
  fun _ _ => rfl

/-- A link of which nothing is said has empty fields. -/
theorem Link.value?_plain (source target key : String) :
    Link.value? { source, target } key = if key ∈ fieldKeys then some "" else none := by
  unfold Link.value?
  split <;> simp_all [fieldKeys, Attributes.get?, Attributes.empty]

/-- A link is what it joins, what values it has, and whether it is marked. -/
theorem Link.eq_of_value? {first second : Link} (hends : first.ends = second.ends)
    (hpath : first.onPath = second.onPath) (hfirst : first.Tidy) (hsecond : second.Tidy)
    (h : ∀ key, first.value? key = second.value? key) : first = second := by
  have hattributes : first.attributes = second.attributes := by
    refine Attributes.eq_of_get? fun key => ?_
    by_cases hkey : key ∈ fieldKeys
    · rw [hfirst key hkey, hsecond key hkey]
    · have hvalue := h key
      unfold Link.value? at hvalue
      split at hvalue
      case h_4 => exact hvalue
      all_goals exact absurd (by decide) hkey
  have hlabel : first.label = second.label := Option.some.inj (h "label")
  have hcolor : first.color = second.color := Option.some.inj (h "color")
  have hstyle : first.style = second.style := Option.some.inj (h "style")
  obtain ⟨hsource, htarget⟩ := Prod.mk.inj hends
  cases first
  cases second
  simp_all

end Graph

end DotGraph
