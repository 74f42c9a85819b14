/-
  Walking down a tree along a path.

  A tree is given by the children of each node.  Each step of a path goes to the
  first child that it hits; a node is known by its position, the indices of the
  children on the way to it.

  * `walk_congr`: two ways of hitting that agree on the steps of a path lead to
    the same node;
  * `walk_rel`: related trees have related walks;
  * `walk_places`: so do walks that lead to the same position;
  * `walk_map`: a walk commutes with a map of the trees that keeps children and hits;
  * `walk_enters`, `walk_append`: the nodes on the way, and a walk along two paths.
-/
import Mathlib.Data.List.Forall2
import Mathlib.Logic.Function.Basic

namespace Lib

universe u v w
variable {T : Type u} {S : Type v} {T' : Type w} {S' : Type v}

/-- The first element that satisfies `p`, and its index. -/
def firstHit (p : T → Bool) : List T → Option (ℕ × T)
  | [] => none
  | a :: l => if p a then some (0, a) else (firstHit p l).map fun r => (r.1 + 1, r.2)

/-- Two lists, related element by element, of which the same elements are hit. -/
theorem firstHit_rel {p : T → Bool} {q : T' → Bool} {R R' : T → T' → Prop} {l : List T}
    {l' : List T'} (hl : List.Forall₂ R l l')
    (h : ∀ a a', R a a' → p a = q a' ∧ (p a = true → R' a a')) :
    Option.Rel (fun r r' => r.1 = r'.1 ∧ R' r.2 r'.2) (firstHit p l) (firstHit q l') := by
  induction hl with
  | nil => exact .none
  | cons ha _ ih =>
    obtain ⟨hpq, hR'⟩ := h _ _ ha
    rw [firstHit, firstHit, ← hpq]
    split
    · rename_i hp
      exact .some ⟨rfl, hR' hp⟩
    · rename_i l l' _ _
      generalize firstHit p l = x at ih ⊢
      generalize firstHit q l' = y at ih ⊢
      rcases ih with ⟨hi, hr⟩ | _
      · exact .some ⟨congrArg (· + 1) hi, hr⟩
      · exact .none

/-- Without the index, it is what `find?` finds. -/
theorem firstHit_snd (p : T → Bool) (l : List T) : (firstHit p l).map (·.2) = l.find? p := by
  induction l with
  | nil => rfl
  | cons a l ih =>
    rw [firstHit, List.find?_cons]
    split
    · rename_i h
      rw [h]
      rfl
    · rename_i h
      rw [Bool.not_eq_true] at h
      rw [h, ← ih, Option.map_map]
      rfl

theorem firstHit_eq_some {p : T → Bool} {l : List T} {r : ℕ × T} (h : firstHit p l = some r) :
    r.2 ∈ l ∧ p r.2 = true := by
  have hfind : l.find? p = some r.2 := by rw [← firstHit_snd, h, Option.map_some]
  exact ⟨List.mem_of_find?_eq_some hfind, List.find?_some hfind⟩

/-- The node at the end of a path, and its position. -/
def walk (children : T → List T) (hits : S → T → Bool) : List S → T → Option (List ℕ × T)
  | [], t => some ([], t)
  | s :: path, t => (firstHit (hits s) (children t)).bind fun r =>
      (walk children hits path r.2).map fun q => (r.1 :: q.1, q.2)

variable {children : T → List T} {hits hits' : S → T → Bool}

/-- **Hits that agree along the path lead to the same node.** -/
theorem walk_congr {path : List S} (h : ∀ s ∈ path, hits s = hits' s) (t : T) :
    walk children hits path t = walk children hits' path t := by
  induction path generalizing t with
  | nil => rfl
  | cons s path ih =>
    have ih := fun t => ih (fun s hs => h s (List.mem_cons_of_mem _ hs)) t
    simp only [walk, h s List.mem_cons_self, ih]

/-- **Related trees have related walks**: their children are related by `R`, and of
    these the same are hit, each of which is the root of a related tree again. -/
theorem walk_rel {children' : T' → List T'} {hits' : S' → T' → Bool} {R R' : T → T' → Prop}
    {g : S → S'} {path : List S}
    (hchildren : ∀ t t', R' t t' → List.Forall₂ R (children t) (children' t'))
    (hhits : ∀ s ∈ path, ∀ t t', R t t' →
      hits s t = hits' (g s) t' ∧ (hits s t = true → R' t t')) {t : T} {t' : T'} (h : R' t t') :
    Option.Rel (fun r r' => r.1 = r'.1 ∧ R' r.2 r'.2) (walk children hits path t)
      (walk children' hits' (path.map g) t') := by
  induction path generalizing t t' with
  | nil => exact .some ⟨rfl, h⟩
  | cons s path ih =>
    have hfirst := firstHit_rel (hchildren t t' h) (hhits s List.mem_cons_self)
    rw [List.map_cons, walk, walk]
    generalize firstHit (hits s) (children t) = x at hfirst ⊢
    generalize firstHit (hits' (g s)) (children' t') = y at hfirst ⊢
    rcases hfirst with @⟨⟨i, c⟩, ⟨i', c'⟩, hi, hc⟩ | _
    · have hrest := ih (fun s hs => hhits s (List.mem_cons_of_mem _ hs)) hc
      rw [Option.bind_some, Option.bind_some]
      generalize walk children hits path c = x at hrest ⊢
      generalize walk children' hits' (path.map g) c' = y at hrest ⊢
      rcases hrest with ⟨hpos, hr⟩ | _
      · exact .some ⟨congrArg₂ _ hi hpos, hr⟩
      · exact .none
    · exact .none

theorem firstHit_rel_of_eq {p : T → Bool} {q : T' → Bool} {R : T → T' → Prop} {l : List T}
    {l' : List T'} (hl : List.Forall₂ R l l') {i : ℕ} {c : T} {c' : T'}
    (h : firstHit p l = some (i, c)) (h' : firstHit q l' = some (i, c')) : R c c' := by
  induction hl generalizing i with
  | nil => cases h
  | cons ha _ ih =>
    rw [firstHit] at h h'
    split at h <;> split at h'
    · cases h
      cases h'
      exact ha
    · cases h
      obtain ⟨r, -, hr⟩ := Option.map_eq_some_iff.1 h'
      exact absurd (congrArg Prod.fst hr) (Nat.succ_ne_zero _)
    · cases h'
      obtain ⟨r, -, hr⟩ := Option.map_eq_some_iff.1 h
      exact absurd (congrArg Prod.fst hr) (Nat.succ_ne_zero _)
    · obtain ⟨⟨j, d⟩, hd, hr⟩ := Option.map_eq_some_iff.1 h
      obtain ⟨⟨j', d'⟩, hd', hr'⟩ := Option.map_eq_some_iff.1 h'
      cases hr
      cases hr'
      exact ih hd hd'

/-- **Walks to the same position lead to related nodes**, whatever is hit on the way. -/
theorem walk_places {children' : T' → List T'} {hits' : S → T' → Bool} {R R' : T → T' → Prop}
    {path : List S}
    (hchildren : ∀ t t', R' t t' → List.Forall₂ R (children t) (children' t'))
    (hhits : ∀ s ∈ path, ∀ t t', R t t' → hits s t = true → R' t t') {t : T} {t' : T'}
    (h : R' t t') (hplace : (walk children hits path t).map (·.1) =
      (walk children' hits' path t').map (·.1)) :
    Option.Rel (fun r r' => R' r.2 r'.2) (walk children hits path t)
      (walk children' hits' path t') := by
  induction path generalizing t t' with
  | nil => exact .some h
  | cons s path ih =>
    rw [walk, walk] at hplace ⊢
    rcases hfirst : firstHit (hits s) (children t) with _ | ⟨i, c⟩ <;>
      rcases hfirst' : firstHit (hits' s) (children' t') with _ | ⟨i', c'⟩ <;>
      rw [hfirst, hfirst'] at hplace
    · exact .none
    · have hnone : walk children' hits' path c' = none := by simpa using hplace.symm
      rw [Option.bind_none, Option.bind_some, hnone]
      exact .none
    · have hnone : walk children hits path c = none := by simpa using hplace
      rw [Option.bind_none, Option.bind_some, hnone]
      exact .none
    · rw [Option.bind_some, Option.bind_some] at hplace ⊢
      rcases hwalk : walk children hits path c with _ | q <;>
        rcases hwalk' : walk children' hits' path c' with _ | q' <;>
        rw [hwalk, hwalk'] at hplace
      · exact .none
      · cases hplace
      · cases hplace
      · -- both go on, and from children with the same index
        obtain ⟨hi, hpos⟩ := List.cons.inj (Option.some.inj hplace)
        dsimp only at hi
        subst hi
        have hR := firstHit_rel_of_eq (hchildren t t' h) hfirst hfirst'
        have hc := hhits s List.mem_cons_self c c' hR (firstHit_eq_some hfirst).2
        have hrest := ih (fun s hs => hhits s (List.mem_cons_of_mem _ hs)) hc
          (by rw [hwalk, hwalk']; exact congrArg some hpos)
        rw [hwalk, hwalk'] at hrest
        rcases hrest with hq | _
        exact .some hq

/-- **A map that keeps children and hits keeps the walks.** -/
theorem walk_map {children' : T' → List T'} {hits' : S' → T' → Bool} {f : T → T'} {g : S → S'}
    {path : List S} (hchildren : ∀ t, children' (f t) = (children t).map f)
    (hhits : ∀ s ∈ path, ∀ t, hits' (g s) (f t) = hits s t) (t : T) :
    walk children' hits' (path.map g) (f t) =
      (walk children hits path t).map (Prod.map id f) := by
  have hrel : Option.Rel (fun r r' => r.1 = r'.1 ∧ f r.2 = r'.2) (walk children hits path t)
      (walk children' hits' (path.map g) (f t)) := by
    have hchildren' : ∀ t t', f t = t' →
        List.Forall₂ (fun t t' => f t = t') (children t) (children' t') := by
      rintro t _ rfl
      rw [hchildren, List.forall₂_map_right_iff]
      exact List.forall₂_same.2 fun _ _ => rfl
    refine walk_rel hchildren' ?_ rfl
    rintro s hs t _ rfl
    exact ⟨(hhits s hs t).symm, fun _ => rfl⟩
  generalize walk children hits path t = x at hrel ⊢
  generalize walk children' hits' (path.map g) (f t) = y at hrel ⊢
  rcases hrel with ⟨hpos, hr⟩ | _
  · exact congrArg some (Prod.ext hpos hr).symm
  · rfl

/-- A walk only enters nodes with a property that is inherited by the hits. -/
theorem walk_enters {I : T → Prop} {path : List S} {t : T} {r : List ℕ × T}
    (hI : ∀ s ∈ path, ∀ t, I t → ∀ c ∈ children t, hits s c = true → I c)
    (h : walk children hits path t = some r) (ht : I t) :
    I r.2 ∧ ∀ s ∈ path, ∃ c, I c ∧ hits s c = true := by
  induction path generalizing t r with
  | nil =>
    cases h
    exact ⟨ht, List.forall_mem_nil _⟩
  | cons s path ih =>
    rw [walk, Option.bind_eq_some_iff] at h
    obtain ⟨⟨i, c⟩, hc, h⟩ := h
    obtain ⟨q, hq, rfl⟩ := Option.map_eq_some_iff.1 h
    obtain ⟨hmem, hhit⟩ := firstHit_eq_some hc
    have hc : I c := hI s List.mem_cons_self t ht c hmem hhit
    obtain ⟨hend, hpath⟩ := ih (fun s hs => hI s (List.mem_cons_of_mem _ hs)) hq hc
    exact ⟨hend, List.forall_mem_cons.2 ⟨⟨c, hc, hhit⟩, hpath⟩⟩

/-- A walk along two paths, one after the other. -/
theorem walk_append (path path' : List S) (t : T) :
    walk children hits (path ++ path') t = (walk children hits path t).bind fun r =>
      (walk children hits path' r.2).map fun q => (r.1 ++ q.1, q.2) := by
  induction path generalizing t with
  | nil =>
    rw [List.nil_append, walk, Option.bind_some]
    exact Option.map_id'.symm
  | cons s path ih =>
    rw [List.cons_append, walk, walk]
    rcases firstHit (hits s) (children t) with _ | ⟨i, c⟩
    · rfl
    · rw [Option.bind_some, Option.bind_some, ih]
      rcases walk children hits path c with _ | ⟨pos, c'⟩
      · rfl
      · rw [Option.bind_some, Option.map_some, Option.bind_some, Option.map_map]
        rfl

/-- The last step of a path hits the node at its end. -/
theorem walk_last {path : List S} {s : S} {t : T} {r : List ℕ × T}
    (h : walk children hits (path ++ [s]) t = some r) : hits s r.2 = true := by
  rw [walk_append, Option.bind_eq_some_iff] at h
  obtain ⟨r₁, -, h⟩ := h
  obtain ⟨q, hq, rfl⟩ := Option.map_eq_some_iff.1 h
  obtain ⟨c, hc, hq⟩ := Option.bind_eq_some_iff.1 hq
  obtain ⟨r₂, hr₂, rfl⟩ := Option.map_eq_some_iff.1 hq
  cases hr₂
  exact (firstHit_eq_some hc).2

end Lib
