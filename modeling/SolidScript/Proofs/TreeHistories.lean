import SolidScript.Number.Binary64
import SolidScript.Proofs.Clipping

/-!
# What trees have gone through

Whatever is done to a tree, its nodes hang together below the first one. So the loop that clips polygons, with a list
of nodes that still wait, finds every node that it looks up and comes to its end.
-/

namespace SolidScript.BspTree

variable {α : Type}

/-! ## The array of nodes -/

/-- A tree as an array: the root comes first, and a node after the only other one that it hangs on. -/
structure Arena (t : BspTree α) : Prop where
  size_pos : 0 < t.nodes.size
  child_after : ∀ i branch c, (t.node i).child? branch = some c → i < c ∧ c < t.nodes.size
  one_parent : ∀ j, 0 < j → j < t.nodes.size → ∃! way : Nat × Branch, (t.node way.1).child? way.2 = some j
  below_root : ∀ j < t.nodes.size, Below t 0 j
  bare_root : ∀ i < t.nodes.size, (t.node i).plane = none → i = 0 ∧ t.node i = .fresh

theorem link_iff {t : BspTree α} {i j : Nat} : Link t i j ↔ ∃ branch, (t.node i).child? branch = some j := by
  unfold Link BspNode.links
  rw [List.mem_append, Option.mem_toList, Option.mem_toList]
  constructor
  · rintro (h | h)
    · exact ⟨.front, h⟩
    · exact ⟨.back, h⟩
  · rintro ⟨branch, h⟩
    cases branch with
    | front => exact .inl h
    | back => exact .inr h

theorem Rooted.branch_unique {t : BspTree α} (h : t.Rooted) {i c : Nat} {b b' : Branch}
    (hb : (t.node i).child? b = some c) (hb' : (t.node i).child? b' = some c) : b = b' := by
  have hapart := List.disjoint_of_nodup_append (h.nodup_links i)
  have htwice (hfront : (t.node i).front = some c) (hback : (t.node i).back = some c) : False :=
    hapart (Option.mem_toList.mpr hfront) (Option.mem_toList.mpr hback)
  cases b <;> cases b'
  · rfl
  · exact (htwice hb hb').elim
  · exact (htwice hb' hb).elim
  · rfl

theorem WellFormed.arena {t : BspTree α} (h : t.WellFormed) : t.Arena := by
  have hrooted : t.Rooted := h.rooted
  have hparent : ∀ j, 0 < j → j < t.nodes.size → ∃ i branch, (t.node i).child? branch = some j := by
    intro j hpos hj
    have hmem : j ∈ 0 :: t.links := hrooted.linked.mem_iff.mpr (List.mem_range.mpr hj)
    obtain ⟨i, hlink⟩ := mem_links.mp ((List.mem_cons.mp hmem).resolve_left hpos.ne')
    exact ⟨i, link_iff.mp hlink⟩
  refine ⟨h.size_pos, fun i branch c hc => ?_, fun j hpos hj => ?_, fun j hj => ?_, fun i hi hplane => ?_⟩
  · have hlink : Link t i c := link_iff.mpr ⟨branch, hc⟩
    exact ⟨hrooted.down i c hlink, hrooted.lt_size hlink⟩
  · obtain ⟨i, branch, hchild⟩ := hparent j hpos hj
    refine ⟨(i, branch), hchild, ?_⟩
    rintro ⟨i', branch'⟩ hchild'
    obtain rfl : i' = i := hrooted.parent_unique (link_iff.mpr ⟨branch', hchild'⟩) (link_iff.mpr ⟨branch, hchild⟩)
    exact congrArg _ (hrooted.branch_unique hchild' hchild)
  -- A parent comes earlier in the array, so that the way up ends at the root.
  · induction j using Nat.strongRecOn with
    | _ j ih =>
      rcases Nat.eq_zero_or_pos j with rfl | hpos
      · exact .refl
      · obtain ⟨i, hlink⟩ := (hparent j hpos hj).imp fun i hi => link_iff.mpr hi
        exact (ih i (hrooted.down i j hlink) (lt_size_of_link hlink)).tail hlink
  · obtain ⟨hfresh, hroot | ⟨ps, -, hmem⟩⟩ := h.bare i hi hplane
    · exact ⟨hroot, hfresh⟩
    · cases hmem

/-! ## Clipping as a loop -/

variable [Scalar α]

/-- A clipping that is under way. The first list that waits is served next. -/
structure Clipping (α : Type) where
  out : Array (Polygon α)
  waiting : List (Nat × List (Polygon α))

namespace Clipping

def push (child : Option Nat) (ps : List (Polygon α)) (waiting : List (Nat × List (Polygon α))) :
    List (Nat × List (Polygon α)) :=
  match child with
  | some c => (c, ps) :: waiting
  | none => waiting

def serve (n : BspNode α) (ps : List (Polygon α)) (c : Clipping α) : Clipping α :=
  match n.plane with
  | none => { c with out := c.out ++ ps }
  | some plane =>
    let front := ps.flatMap (plane.handed .front)
    let back := ps.flatMap (plane.handed .back)
    { out := match n.front with
        | some _ => c.out
        | none => c.out ++ front
      waiting := push n.back back (push n.front front c.waiting) }

/-- Serves what waits on top. There is no next state when it waits at a node that does not exist. -/
def step? (t : BspTree α) : Clipping α → Option (Clipping α)
  | ⟨out, []⟩ => some ⟨out, []⟩
  | ⟨out, (i, ps) :: waiting⟩ => t.nodes[i]?.map fun n => serve n ps ⟨out, waiting⟩

def Runs (t : BspTree α) (c c' : Clipping α) : Prop := ∃ n, (fun s => s.bind (step? t))^[n] (some c) = some c'

variable {t : BspTree α}

theorem Runs.refl (c : Clipping α) : Runs t c c := ⟨0, rfl⟩

theorem Runs.head {c c' c'' : Clipping α} (h : step? t c = some c') (h' : Runs t c' c'') : Runs t c c'' := by
  obtain ⟨n, hn⟩ := h'
  exact ⟨n + 1, (congrArg _ h).trans hn⟩

theorem Runs.trans {c c' c'' : Clipping α} (h : Runs t c c') (h' : Runs t c' c'') : Runs t c c'' := by
  obtain ⟨n, hn⟩ := h
  obtain ⟨m, hm⟩ := h'
  refine ⟨m + n, ?_⟩
  rw [Function.iterate_add_apply, hn, hm]

theorem step?_of_lt {i : Nat} (hi : i < t.nodes.size) (ps : List (Polygon α)) (out : Array (Polygon α))
    (waiting : List (Nat × List (Polygon α))) :
    step? t ⟨out, (i, ps) :: waiting⟩ = some (serve (t.node i) ps ⟨out, waiting⟩) := by
  have hnode : t.nodes[i]? = some (t.node i) := by
    unfold node
    rw [Array.getElem?_eq_getElem hi, Array.getElem_eq_getD .fresh]
  exact congrArg (Option.map _) hnode

/-- A list that waits on top is served, with all that comes of it, before the rest. The nodes that it still goes to come
later in the array, so that this is by induction on how many there are. -/
theorem runs_clipFrom (h : t.Arena) {i : Nat} (hi : i < t.nodes.size) (ps : List (Polygon α)) (out : Array (Polygon α))
    (waiting : List (Nat × List (Polygon α))) :
    Runs t ⟨out, (i, ps) :: waiting⟩ ⟨t.clipFrom i ps out, waiting⟩ := by
  induction hleft : t.nodes.size - i using Nat.strongRecOn generalizing i ps out waiting with
  | _ left ih =>
    have hchild (branch : Branch) (ps : List (Polygon α)) (out : Array (Polygon α))
        (waiting : List (Nat × List (Polygon α))) :
        Runs t ⟨out, push ((t.node i).child? branch) ps waiting⟩ ⟨t.clipChild i branch ps out, waiting⟩ := by
      unfold clipChild
      cases hc : (t.node i).child? branch with
      | none => exact .refl _
      | some c =>
        have hafter := h.child_after i branch c hc
        simp only [if_pos hafter]
        exact ih (t.nodes.size - c) (by omega) hafter.2 ps out waiting rfl
    refine .head (step?_of_lt hi ps out waiting) ?_
    cases hplane : (t.node i).plane with
    | none =>
      rw [t.clipFrom_of_bare hplane, serve, hplane]
      exact .refl _
    | some plane =>
      have hserved : serve (t.node i) ps ⟨out, waiting⟩ =
          ⟨if (t.node i).front.isSome then out else out ++ ps.flatMap (plane.handed .front),
            push ((t.node i).child? .back) (ps.flatMap (plane.handed .back))
              (push ((t.node i).child? .front) (ps.flatMap (plane.handed .front)) waiting)⟩ := by
        unfold serve BspNode.child?
        rw [hplane]
        cases (t.node i).front <;> rfl
      rw [hserved, t.clipFrom_of_plane hplane]
      exact (hchild .back _ _ _).trans (hchild .front _ _ _)

end Clipping

/-! ## Histories -/

/-- What can be done to a tree, as long as polygons that are inserted come to rest. -/
inductive Reached : BspTree α → Prop
  | made {ps : List (Polygon α)} {t : BspTree α} (h : ofPolygons ps = some t) : Reached t
  | built {t t' : BspTree α} {ps : List (Polygon α)} (h : Reached t) (hinsert : t.insert ps = some t') : Reached t'
  | clipped {t other : BspTree α} (h : Reached t) (hother : Reached other) : Reached (t.clipTo other)
  | inverted {t : BspTree α} (h : Reached t) : Reached t.invert

theorem Reached.wellFormed {t : BspTree α} (h : t.Reached) : t.WellFormed := by
  induction h with
  | made h => exact wellFormed_ofPolygons h
  | built _ hinsert ih => exact ih.insert hinsert
  | clipped _ _ ih => exact wellFormed_clipTo ih _
  | inverted _ ih => exact wellFormed_invert ih

/-- Whatever a tree has gone through, its nodes hang together below the first, and every list of polygons is clipped
after finitely many steps of the loop, all of which find their nodes. -/
theorem reached_arena_and_clipping {t : BspTree α} (h : t.Reached) :
    t.Arena ∧ ∀ ps, Clipping.Runs t ⟨#[], [(0, ps)]⟩ ⟨(t.clip ps).toArray, []⟩ := by
  have harena : t.Arena := h.wellFormed.arena
  refine ⟨harena, fun ps => ?_⟩
  have hrun := Clipping.runs_clipFrom harena harena.size_pos ps #[] []
  unfold clip
  rwa [Array.toArray_toList]

/-- A triangle in the plane `z = 0` that faces up, and one above it. -/
def stacked : List (Polygon Float) :=
  let triangle (z : Float) : Polygon Float :=
    ⟨[⟨⟨0, 0, z⟩, Vec3.unitZ⟩, ⟨⟨1, 0, z⟩, Vec3.unitZ⟩, ⟨⟨0, 1, z⟩, Vec3.unitZ⟩], ⟨Vec3.unitZ, z⟩⟩
  [triangle 0, triangle 1]

/-- The second triangle comes to a front child, which turning over makes a back child. -/
theorem stacked_history : ∃ t : BspTree Float, ofPolygons stacked = some t ∧
    (t.invert.nodes.map fun n => (n.front, n.back)) = #[(none, some 1), (none, none)] ∧ t.invert.Arena ∧
      Clipping.Runs t.invert ⟨#[], [(0, stacked)]⟩ ⟨(t.invert.clip stacked).toArray, []⟩ := by
  have hwaiting : (Construction.step^[2] ⟨root, [(0, stacked)]⟩).waiting.isEmpty = true := by decide +kernel
  have hmade : ofPolygons stacked = some (Construction.step^[2] ⟨root, [(0, stacked)]⟩).tree :=
    insert_of_run 2 (List.isEmpty_iff.mp hwaiting)
  obtain ⟨harena, hclipping⟩ := reached_arena_and_clipping (.inverted (.made hmade))
  exact ⟨_, hmade, by decide +kernel, harena, hclipping stacked⟩

end SolidScript.BspTree
