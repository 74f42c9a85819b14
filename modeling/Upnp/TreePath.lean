/-
  What `xml::get_child` promises, against Boost's `get_child_optional`.

  Both return a pointer to a node; here it is the position of the node, with the
  node.  Both walk along the names on the path (`pathNames`): one may look for a
  local name, with any namespace prefix in front of it.

  * `getChildAt_walk`, `getChildOptionalAt_walk`: both functions as walks;
  * `getChild_promise`: without `*:` on the path both return the same node; with
    `*:` on every name, `get_child` returns the node that stands at the same
    position in the tree without prefixes.
-/
import Upnp.Decode
import Upnp.Lib.Walk

namespace Upnp

open Lib

namespace Ptree

/-! ## Pointers -/

/-- The children of an element, with their names. -/
def elements (e : Str × Ptree) : List (Str × Ptree) := e.2.children

/-- A name on the path of `get_child_optional` hits the children of that name. -/
def named (p : Str) (e : Str × Ptree) : Bool := e.1 = p

/-- A name on the path of `get_child` hits any prefix, if it begins with `*:`. -/
def picks (p : Str) (e : Str × Ptree) : Bool :=
  if (nameSplit p).1 = ['*'] then (nameSplit p).2 = (nameSplit e.1).2 else e.1 = p

/-- `pick`, with the index of the child. -/
def pickAt (t : Ptree) (p : Str) : Option (ℕ × Ptree) :=
  let ns := nameSplit p
  if ns.1 = ['*'] then
    (firstHit (fun e => ns.2 = (nameSplit e.1).2) t.children).map fun r => (r.1, r.2.2)
  else (firstHit (fun e => e.1 = p) t.children).map fun r => (r.1, r.2.2)

/-- The pointer `get_child(tr, path)` returns: the position of a node, and the node. -/
def getChildAt (t : Ptree) (path : Str) : Option (List ℕ × Ptree) :=
  if path = [] then some ([], t)
  else
    match _h : consumeUntil path [['.']] true with
    | some (p, path) => (t.pickAt p).bind fun c =>
      (c.2.getChildAt path).map fun r => (c.1 :: r.1, r.2)
    | none => (t.pickAt path).map fun c => ([c.1], c.2)
termination_by path.length
decreasing_by
  rw [consumeUntil_true] at _h
  exact (cut_append_lt (by simp) _h).2

/-- The node that Boost's `get_child_optional(path)` refers to, with its position. -/
def getChildOptionalAt (t : Ptree) (path : Str) : Option (List ℕ × Ptree) :=
  if path = [] then some ([], t)
  else
    match firstHit (named (path.takeWhile (· ≠ '.'))) t.children with
    | some (i, e) => (e.2.getChildOptionalAt ((path.dropWhile (· ≠ '.')).drop 1)).map
      fun r => (i :: r.1, r.2)
    | none => none
termination_by path.length
decreasing_by
  rename_i h
  have := List.length_dropWhile_le (· ≠ '.') path
  have := List.length_pos_of_ne_nil h
  rw [List.length_drop]
  omega

/-! ## The names on a path -/

/-- The names between the dots; a trailing dot adds none. -/
def pathNames (path : Str) : List Str :=
  let names := path.splitOn '.'
  if names.getLast? = some [] then names.dropLast else names

theorem pathNames_nil : pathNames [] = [] := by simp [pathNames]

theorem pathNames_name {p : Str} (hne : p ≠ []) (hdot : '.' ∉ p) : pathNames p = [p] := by
  simp [pathNames, List.splitOn_eq_singleton hdot, hne]

theorem pathNames_cut {p : Str} (hdot : '.' ∉ p) (rest : Str) :
    pathNames (p ++ '.' :: rest) = p :: pathNames rest := by
  obtain ⟨name, names, hrest⟩ := List.exists_cons_of_ne_nil (List.splitOn_ne_nil '.' rest)
  simp only [pathNames, List.splitOn_append_cons_self_of_not_mem hdot, hrest,
    List.getLast?_cons_cons, List.dropLast_cons_cons]
  split <;> rfl

/-- A path is empty, a name, or a name and what follows its dot. -/
@[elab_as_elim]
theorem path_induction {P : Str → Prop} (nil : P []) (name : ∀ p, p ≠ [] → '.' ∉ p → P p)
    (cut : ∀ p rest, '.' ∉ p → P rest → P (p ++ '.' :: rest)) (path : Str) : P path := by
  induction hn : path.length using Nat.strong_induction_on generalizing path with
  | _ n ih =>
    by_cases hne : path = []
    · exact hne ▸ nil
    by_cases hdot : '.' ∈ path
    · obtain ⟨p, rest, rfl, hp⟩ := List.eq_append_cons_of_mem hdot
      refine cut p rest hp (ih rest.length ?_ rest rfl)
      rw [← hn, List.length_append, List.length_cons]
      omega
    · exact name path hne hdot

section
variable {t : Ptree} {p : Str}

theorem consumeUntil_dot (hdot : '.' ∉ p) (rest : Str) :
    consumeUntil (p ++ '.' :: rest) [['.']] true = some (p, rest) := by
  rw [consumeUntil_true, cut_singleton_append hdot]

theorem consumeUntil_noDot (hdot : '.' ∉ p) : consumeUntil p [['.']] true = none := by
  rw [consumeUntil_true, cut_singleton_eq_none]
  exact hdot

theorem getChild_nil : t.getChild [] = some t := by rw [getChild, if_pos rfl]

theorem getChild_name (hne : p ≠ []) (hdot : '.' ∉ p) : t.getChild p = t.pick p :=
  getChild_last hne (consumeUntil_noDot hdot)

theorem getChild_dot (hdot : '.' ∉ p) (rest : Str) :
    t.getChild (p ++ '.' :: rest) = (t.pick p).bind fun c => c.getChild rest :=
  getChild_cut (consumeUntil_dot hdot rest)

theorem getChildAt_name (hne : p ≠ []) (hdot : '.' ∉ p) :
    t.getChildAt p = (t.pickAt p).map fun c => ([c.1], c.2) := by
  rw [getChildAt, if_neg hne]
  split <;> rename_i h
  · rw [consumeUntil_noDot hdot] at h
    cases h
  · rfl

theorem getChildAt_dot (hdot : '.' ∉ p) (rest : Str) :
    t.getChildAt (p ++ '.' :: rest) = (t.pickAt p).bind fun c =>
      (c.2.getChildAt rest).map fun r => (c.1 :: r.1, r.2) := by
  rw [getChildAt, if_neg (by simp)]
  split <;> rename_i h <;> rw [consumeUntil_dot hdot rest] at h <;> cases h
  rfl

theorem takeWhile_dot (hdot : '.' ∉ p) (rest : Str) :
    (p ++ '.' :: rest).takeWhile (· ≠ '.') = p ∧
      ((p ++ '.' :: rest).dropWhile (· ≠ '.')).drop 1 = rest := by
  have hp : ∀ c ∈ p, decide (c ≠ '.') = true := fun c hc => by
    simpa using fun h : c = '.' => hdot (h ▸ hc)
  rw [List.takeWhile_append_of_pos hp, List.dropWhile_append_of_pos hp]
  simp

theorem getChildOptional_dot (hdot : '.' ∉ p) (rest : Str) :
    t.getChildOptional (p ++ '.' :: rest) =
      (t.children.find? (named p)).bind fun e => e.2.getChildOptional rest := by
  have hnamed : (fun e : Str × Ptree => decide (e.1 = p)) = named p := rfl
  rw [getChildOptional, if_neg (by simp), (takeWhile_dot hdot rest).1,
    (takeWhile_dot hdot rest).2, hnamed]
  split <;> rename_i h <;> rw [h] <;> rfl

theorem getChildOptionalAt_nil : t.getChildOptionalAt [] = some ([], t) := by
  rw [getChildOptionalAt, if_pos rfl]

theorem getChildOptionalAt_dot (hdot : '.' ∉ p) (rest : Str) :
    t.getChildOptionalAt (p ++ '.' :: rest) =
      (firstHit (named p) t.children).bind fun c =>
        (c.2.2.getChildOptionalAt rest).map fun r => (c.1 :: r.1, r.2) := by
  rw [getChildOptionalAt, if_neg (by simp), (takeWhile_dot hdot rest).1,
    (takeWhile_dot hdot rest).2]
  split <;> rename_i h <;> rw [h] <;> rfl

theorem getChildOptionalAt_name (hne : p ≠ []) (hdot : '.' ∉ p) :
    t.getChildOptionalAt p =
      (firstHit (named p) t.children).map fun c => ([c.1], c.2.2) := by
  have hp : ∀ c ∈ p, decide (c ≠ '.') = true := fun c hc => by
    simpa using fun h : c = '.' => hdot (h ▸ hc)
  rw [getChildOptionalAt, if_neg hne, List.takeWhile_eq_self_iff.2 hp,
    List.dropWhile_eq_nil_iff.2 hp, List.drop_nil]
  split <;> rename_i h <;> rw [h]
  · rw [getChildOptionalAt_nil]
    rfl
  · rfl

end

/-! ## Both functions as walks -/

theorem pickAt_eq (t : Ptree) (p : Str) :
    t.pickAt p = (firstHit (picks p) t.children).map fun r => (r.1, r.2.2) := by
  unfold pickAt picks
  by_cases h : (nameSplit p).1 = ['*']
  · simp only [h, if_true]
  · simp only [h, if_false]

theorem pickAt_node (t : Ptree) (p : Str) : (t.pickAt p).map (·.2) = t.pick p := by
  unfold pickAt pick
  dsimp only
  split <;> simp only [← firstHit_snd, Option.map_map] <;> rfl

/-- **The pointer is the node that `get_child` returns.** -/
theorem getChildAt_node (t : Ptree) (path : Str) :
    (t.getChildAt path).map (·.2) = t.getChild path := by
  induction path using path_induction generalizing t with
  | nil => rw [getChildAt, if_pos rfl, getChild_nil, Option.map_some]
  | name p hne hdot =>
    rw [getChildAt_name hne hdot, getChild_name hne hdot, Option.map_map, ← pickAt_node]
    rfl
  | cut p rest hdot ih =>
    rw [getChildAt_dot hdot, getChild_dot hdot, ← pickAt_node]
    rcases t.pickAt p with _ | c
    · rfl
    · rw [Option.bind_some, Option.map_some, Option.bind_some, ← ih, Option.map_map]
      rfl

theorem getChildOptionalAt_node (t : Ptree) (path : Str) :
    (t.getChildOptionalAt path).map (·.2) = t.getChildOptional path := by
  induction path using path_induction generalizing t with
  | nil => rw [getChildOptionalAt_nil, getChildOptional, if_pos rfl, Option.map_some]
  | name p hne hdot =>
    rw [getChildOptionalAt_name hne hdot, getChildOptional_name hne hdot, Option.map_map,
      ← firstHit_snd, Option.map_map]
    rfl
  | cut p rest hdot ih =>
    rw [getChildOptionalAt_dot hdot, getChildOptional_dot hdot, ← firstHit_snd]
    rcases firstHit (named p) t.children with _ | c
    · rfl
    · rw [Option.bind_some, Option.map_some, Option.bind_some, ← ih, Option.map_map]
      rfl

/-- **`get_child` walks along the names on the path.** -/
theorem getChildAt_walk (t : Ptree) (n path : Str) : t.getChildAt path =
    (walk elements picks (pathNames path) (n, t)).map fun r => (r.1, r.2.2) := by
  induction path using path_induction generalizing t n with
  | nil =>
    rw [getChildAt, if_pos rfl, pathNames_nil, walk]
    rfl
  | name p hne hdot =>
    rw [getChildAt_name hne hdot, pathNames_name hne hdot, pickAt_eq, walk]
    dsimp only [elements]
    rcases firstHit (picks p) t.children with _ | c <;> rfl
  | cut p rest hdot ih =>
    rw [getChildAt_dot hdot, pathNames_cut hdot, pickAt_eq, walk]
    dsimp only [elements]
    rcases firstHit (picks p) t.children with _ | c
    · rfl
    · rw [Option.map_some, Option.bind_some, Option.bind_some, ih _ c.2.1, Option.map_map,
        Option.map_map]
      rfl

/-- **So does `get_child_optional`.** -/
theorem getChildOptionalAt_walk (t : Ptree) (n path : Str) : t.getChildOptionalAt path =
    (walk elements named (pathNames path) (n, t)).map fun r => (r.1, r.2.2) := by
  induction path using path_induction generalizing t n with
  | nil =>
    rw [getChildOptionalAt_nil, pathNames_nil, walk]
    rfl
  | name p hne hdot =>
    rw [getChildOptionalAt_name hne hdot, pathNames_name hne hdot, walk]
    dsimp only [elements]
    rcases firstHit (named p) t.children with _ | c <;> rfl
  | cut p rest hdot ih =>
    rw [getChildOptionalAt_dot hdot, pathNames_cut hdot, walk]
    dsimp only [elements]
    rcases firstHit (named p) t.children with _ | c
    · rfl
    · rw [Option.bind_some, Option.bind_some, ih _ c.2.1, Option.map_map, Option.map_map]
      rfl

/-! ## Other names and other texts -/

/-- An element with its names changed by `κ`, and its texts by `δ`, which also
    knows the names. -/
def relabel (κ : Str → Str) (δ : Str → Str → Str) (e : Str × Ptree) : Str × Ptree :=
  (κ e.1, ⟨δ e.1 e.2.data, e.2.children.attach.map fun c => relabel κ δ c.1⟩)
termination_by sizeOf e.2
decreasing_by exact sizeOf_child c.2

theorem elements_relabel (κ : Str → Str) (δ : Str → Str → Str) (e : Str × Ptree) :
    elements (relabel κ δ e) = (elements e).map (relabel κ δ) := by
  rw [relabel, elements, elements, List.map_attach_eq_pmap]
  simp

theorem relabel_fst (κ : Str → Str) (δ : Str → Str → Str) (e : Str × Ptree) :
    (relabel κ δ e).1 = κ e.1 := by rw [relabel]

/-- An element without the namespace prefixes. -/
def strip : Str × Ptree → Str × Ptree := relabel localName fun _ d => d

/-- A tree without the namespace prefixes. -/
def withoutPrefixes (t : Ptree) : Ptree := (strip ([], t)).2

theorem strip_snd (e : Str × Ptree) : (strip e).2 = e.2.withoutPrefixes := by
  rw [withoutPrefixes, strip, relabel, relabel]

/-! ## The two promises -/

/-- The path `*:n₁.*:n₂…` -/
def starPath (names : List Str) : Str := ['.'].intercalate (names.map (['*', ':'] ++ ·))

/-- The path `n₁.n₂…` -/
def plainPath (names : List Str) : Str := ['.'].intercalate names

theorem nameSplit_star (n : Str) : nameSplit (['*', ':'] ++ n) = (['*'], n) := by
  have hstar : ':' ∉ ['*'] := by decide
  have hcut : cut [':'] (['*', ':'] ++ n) = some (['*'], n) := cut_singleton_append hstar
  rw [nameSplit, consumeUntil_true, hcut]
  rfl

theorem picks_star (n : Str) (e : Str × Ptree) :
    picks (['*', ':'] ++ n) e = named n (strip e) := by
  simp only [picks, nameSplit_star, if_true, named, strip, relabel_fst, localName, eq_comm]

/-- A name without `*:` in front is taken as it is. -/
theorem picks_plain {p : Str} (h : ¬ ['*', ':'] <+: p) : picks p = named p := by
  have hne : (nameSplit p).1 ≠ ['*'] := by
    rw [nameSplit, consumeUntil_true]
    rcases hc : cut [':'] p with _ | ⟨x, y⟩
    · simp
    · intro hx
      obtain ⟨rfl, -⟩ := cut_singleton_eq_some.1 hc
      have hx : x = ['*'] := hx
      exact h ⟨y, by rw [hx]; rfl⟩
  funext e
  rw [picks, if_neg hne]
  rfl

theorem pathNames_subset {path p : Str} (h : p ∈ pathNames path) : p ∈ path.splitOn '.' := by
  unfold pathNames at h
  dsimp only at h
  split at h
  · exact List.mem_of_mem_dropLast h
  · exact h

theorem pathNames_intercalate {names : List Str} (hdot : ∀ n ∈ names, '.' ∉ n)
    (hlast : names.getLast? ≠ some []) : pathNames (['.'].intercalate names) = names := by
  by_cases hnil : names = []
  · subst hnil
    exact pathNames_nil
  · unfold pathNames
    dsimp only
    rw [List.splitOn_intercalate '.' hdot hnil, if_neg hlast]

theorem pathNames_starPath {names : List Str} (hdot : ∀ n ∈ names, '.' ∉ n) :
    pathNames (starPath names) = names.map (['*', ':'] ++ ·) := by
  refine pathNames_intercalate ?_ ?_
  · intro p hp
    obtain ⟨n, hn, rfl⟩ := List.mem_map.1 hp
    simpa using hdot n hn
  · rw [List.getLast?_map]
    rcases names.getLast? with _ | n <;> simp

/-- The node that some names lead to, with its position: at each of them, the first
    child of that name. -/
def namedAt (t : Ptree) (names : List Str) : Option (List ℕ × Ptree) :=
  (walk elements named names ([], t)).map fun r => (r.1, r.2.2)

theorem walk_root (names : List Str) (n n' : Str) (t : Ptree) :
    (walk elements named names (n, t)).map (fun r => (r.1, r.2.2)) =
      (walk elements named names (n', t)).map fun r => (r.1, r.2.2) := by
  cases names <;> rfl

/-- On a path of names, `get_child_optional` goes where they lead; but an empty name
    at the end can not be written. -/
theorem getChildOptionalAt_plainPath (t : Ptree) {names : List Str} (hdot : ∀ n ∈ names, '.' ∉ n)
    (hlast : names.getLast? ≠ some []) :
    t.getChildOptionalAt (plainPath names) = t.namedAt names := by
  rw [getChildOptionalAt_walk t [], plainPath, pathNames_intercalate hdot hlast, namedAt]

/-- **With `*:` on every name, `get_child` goes where the names lead in the tree
    without prefixes.** -/
theorem getChildAt_starPath (t : Ptree) {names : List Str} (hdot : ∀ n ∈ names, '.' ∉ n) :
    t.withoutPrefixes.namedAt names =
      (t.getChildAt (starPath names)).map (Prod.map id withoutPrefixes) := by
  have hdrop : (names.map (['*', ':'] ++ ·)).map (List.drop 2) = names := by
    rw [List.map_map]
    exact List.map_id' names
  have hwalk : walk elements named ((names.map (['*', ':'] ++ ·)).map (List.drop 2))
      (strip ([], t)) =
        (walk elements picks (names.map (['*', ':'] ++ ·)) ([], t)).map (Prod.map id strip) := by
    refine walk_map (elements_relabel _ _) ?_ _
    intro p hp e
    obtain ⟨n, -, rfl⟩ := List.mem_map.1 hp
    exact (picks_star n e).symm
  rw [hdrop] at hwalk
  have hstart : walk elements named names ((strip ([], t)).1, t.withoutPrefixes) = _ := hwalk
  rw [namedAt, walk_root names [] (strip ([], t)).1, getChildAt_walk _ [],
    pathNames_starPath hdot, hstart, Option.map_map, Option.map_map]
  refine congrArg (fun g => Option.map g _) ?_
  funext r
  simp only [Function.comp, Prod.map, id, strip_snd]

/-- **Without `*:` on the path, `get_child` walks as `get_child_optional` does.** -/
theorem getChildAt_plain (t : Ptree) {path : Str}
    (h : ∀ p ∈ path.splitOn '.', ¬ ['*', ':'] <+: p) :
    t.getChildAt path = t.getChildOptionalAt path := by
  rw [getChildAt_walk t [], getChildOptionalAt_walk t [],
    walk_congr fun p hp => picks_plain (h p (pathNames_subset hp))]

theorem getChild_plain (t : Ptree) {path : Str}
    (h : ∀ p ∈ path.splitOn '.', ¬ ['*', ':'] <+: p) :
    t.getChild path = t.getChildOptional path := by
  rw [← getChildAt_node, getChildAt_plain t h, getChildOptionalAt_node]

/-- **`get_child` does what is promised of it**: without `*:` on the path, it
    returns the same node as `get_child_optional`; with `*:` on every name, it
    returns the node that the names lead to in the tree without prefixes, if there
    is one, as the path of these names does.  The prefixes do not matter to it. -/
theorem getChild_promise (t : Ptree) :
    (∀ path : Str, (∀ p ∈ path.splitOn '.', ¬ ['*', ':'] <+: p) →
      t.getChildAt path = t.getChildOptionalAt path ∧ t.getChild path = t.getChildOptional path) ∧
    ∀ names : List Str, (∀ n ∈ names, '.' ∉ n) →
      t.withoutPrefixes.namedAt names =
        (t.getChildAt (starPath names)).map (Prod.map id withoutPrefixes) ∧
      (names.getLast? ≠ some [] →
        t.withoutPrefixes.getChildOptionalAt (plainPath names) =
          t.withoutPrefixes.namedAt names) ∧
      ∀ t' : Ptree, t'.withoutPrefixes = t.withoutPrefixes →
        (t'.getChildAt (starPath names)).map (·.1) =
          (t.getChildAt (starPath names)).map (·.1) := by
  refine ⟨fun path h => ⟨getChildAt_plain t h, getChild_plain t h⟩, ?_⟩
  intro names hdot
  refine ⟨getChildAt_starPath t hdot, getChildOptionalAt_plainPath _ hdot, ?_⟩
  intro t' ht
  have hpos : ∀ u : Ptree, (u.getChildAt (starPath names)).map (·.1) =
      (u.withoutPrefixes.namedAt names).map (·.1) := by
    intro u
    rw [getChildAt_starPath u hdot, Option.map_map]
    rfl
  rw [hpos, hpos, ht]

end Ptree

end Upnp
