import Mathlib.Data.Rat.Defs
import Mathlib.Algebra.Order.Ring.Rat
import Mathlib.Data.List.MinMax
import CardsGame.Swift

/-!
# The part of SpriteKit the scenes rely on

A node is a record addressed by an identity; two references are identical
(`===`) exactly when the identities are equal. `run(SKAction.hide())` and
`run(SKAction.unhide())` only queue an action on the node: it takes effect when
SpriteKit evaluates the node's actions. Coordinates and sizes are exact
rationals.
-/
namespace SpriteKit

structure Point where
  x : ℚ
  y : ℚ
  deriving DecidableEq, Repr

structure Size where
  width : ℚ
  height : ℚ
  deriving DecidableEq, Repr

structure Rect where
  origin : Point
  size : Size
  deriving DecidableEq, Repr

/-- `CGRect.contains(_: CGPoint)`: the minimum edges belong to the rectangle,
the maximum edges do not. -/
def Rect.Contains (r : Rect) (p : Point) : Prop :=
  r.origin.x ≤ p.x ∧ p.x < r.origin.x + r.size.width ∧
    r.origin.y ≤ p.y ∧ p.y < r.origin.y + r.size.height

instance (r : Rect) (p : Point) : Decidable (r.Contains p) :=
  inferInstanceAs (Decidable (_ ∧ _))

/-- The rectangle of a box of the given size whose anchor point is at `at_`. -/
def anchored (size : Size) (anchor at_ : Point) : Rect :=
  ⟨⟨at_.x - anchor.x * size.width, at_.y - anchor.y * size.height⟩, size⟩

/-- `SKSpriteNode`, `SKLabelNode`, `SKShapeNode`, and a bare `SKNode`. -/
inductive NodeKind where
  | sprite | label | shape | group
  deriving DecidableEq, Repr

/-- A queued `SKAction.hide()` or `SKAction.unhide()`; `ordinal` counts the
actions started in the scene before it. -/
structure Action where
  hides : Bool
  ordinal : Nat
  deriving DecidableEq, Repr

structure Node where
  kind : NodeKind := .sprite
  image : String := ""
  text : String := ""
  fontName : String := ""
  fontSize : ℚ := 32
  name : Option String := none
  size : Size := ⟨0, 0⟩
  anchorPoint : Point := ⟨1 / 2, 1 / 2⟩
  position : Point := ⟨0, 0⟩
  zPosition : ℚ := 0
  isHidden : Bool := false
  actions : List Action := []
  deriving DecidableEq, Repr

namespace Node

/-- Whether the node is hidden once its queued actions have been applied. -/
def settled (n : Node) : Bool :=
  match n.actions.getLast? with
  | some a => a.hides
  | none => n.isHidden

/-- SpriteKit evaluates the queued actions of a node, in the order they were started. -/
def evaluate (n : Node) : Node := { n with isHidden := n.settled, actions := [] }

def queue (n : Node) (a : Action) : Node := { n with actions := n.actions ++ [a] }

/-- What no event of a running scene changes: everything but the text, the
hidden flag and the queued actions. -/
def fixed (n : Node) : Node := { n with text := "", isHidden := false, actions := [] }

@[simp] theorem settled_queue (n : Node) (a : Action) : (n.queue a).settled = a.hides := by
  simp [queue, settled]

@[simp] theorem settled_evaluate (n : Node) : n.evaluate.settled = n.settled := rfl
@[simp] theorem isHidden_evaluate (n : Node) : n.evaluate.isHidden = n.settled := rfl
@[simp] theorem actions_evaluate (n : Node) : n.evaluate.actions = [] := rfl
@[simp] theorem actions_queue (n : Node) (a : Action) :
    (n.queue a).actions = n.actions ++ [a] := rfl
@[simp] theorem fixed_evaluate (n : Node) : n.evaluate.fixed = n.fixed := rfl
@[simp] theorem fixed_queue (n : Node) (a : Action) : (n.queue a).fixed = n.fixed := rfl

theorem settled_of_no_actions {n : Node} (h : n.actions = []) : n.settled = n.isHidden := by
  simp [settled, h]

/-- Shown, and about to stay so. -/
def Still (n : Node) : Prop := n.isHidden = false ∧ n.actions = []

theorem Still.evaluate {n : Node} (h : n.Still) : n.evaluate.Still := by
  refine ⟨?_, rfl⟩
  rw [isHidden_evaluate, settled_of_no_actions h.2, h.1]

end Node

/-- What the art, the fonts and the renderer decide: the size of an image, and the box
a text fills around the position of its label. -/
structure Assets where
  imageSize : String → Size
  textBox : String → ℚ → String → Rect
  /-- The frame of a stroked circle of the given radius. -/
  circle : ℚ → Size

/-- `SKNode.frame` -/
def frame (assets : Assets) (n : Node) : Rect :=
  match n.kind with
  | .sprite | .shape => anchored n.size n.anchorPoint n.position
  | .label =>
    let box := assets.textBox n.fontName n.fontSize n.text
    ⟨⟨n.position.x + box.origin.x, n.position.y + box.origin.y⟩, box.size⟩
  | .group => ⟨n.position, ⟨0, 0⟩⟩

/-- The node can be hit at `p`. -/
def Hit (assets : Assets) (p : Point) (n : Node) : Prop :=
  n.isHidden = false ∧ (frame assets n).Contains p

instance (assets : Assets) (p : Point) (n : Node) : Decidable (Hit assets p n) :=
  inferInstanceAs (Decidable (_ ∧ _))

section AtPoint

variable {α : Type} (look : α → Node)

/-- `SKNode.atPoint`: of the nodes hit at `p`, given in the order they are drawn,
one of greatest `zPosition`, and among these the one drawn last. `none` stands
for the scene itself. -/
def atPoint (assets : Assets) (drawn : List α) (p : Point) : Option α :=
  ((drawn.filter fun n => Hit assets p (look n)).reverse).argmax fun n => (look n).zPosition

/-- `node as! SKSpriteNode` for the result of `atPoint`; the scene is no sprite. -/
def asSprite : Option α → Swift.Checked α
  | some n => if (look n).kind = .sprite then .ok n else .error .badCast
  | none => .error .badCast

variable (assets : Assets) (p : Point)

/-- The one of two groups that is in front, the second being drawn over the first. -/
def inFront : Option α → Option α → Option α
  | none, y => y
  | some x, none => some x
  | some x, some y => if (look y).zPosition < (look x).zPosition then some x else some y

@[simp] theorem inFront_none (x : Option α) : inFront look x none = x := by
  cases x <;> rfl

theorem inFront_assoc (a b c : Option α) :
    inFront look (inFront look a b) c = inFront look a (inFront look b c) := by
  cases a with
  | none => rfl
  | some x =>
    cases b with
    | none => rfl
    | some y =>
      cases c with
      | none => rw [inFront_none, inFront_none]
      | some z =>
        by_cases hxy : (look y).zPosition < (look x).zPosition
        · by_cases hyz : (look z).zPosition < (look y).zPosition
          · simp [inFront, hxy, hyz, hyz.trans hxy]
          · simp [inFront, hxy, hyz]
        · by_cases hyz : (look z).zPosition < (look y).zPosition
          · simp [inFront, hxy, hyz]
          · have hxz : ¬ (look z).zPosition < (look x).zPosition := by
              rw [not_lt] at hxy hyz ⊢
              exact hxy.trans hyz
            simp [inFront, hxy, hyz, hxz]

theorem atPoint_nil : atPoint look assets [] p = none := rfl

theorem atPoint_singleton (n : α) :
    atPoint look assets [n] p = if Hit assets p (look n) then some n else none := by
  by_cases h : Hit assets p (look n)
  · simp [atPoint, h]
  · simp [atPoint, h]

theorem atPoint_concat (drawn : List α) (n : α) :
    atPoint look assets (drawn ++ [n]) p =
      inFront look (atPoint look assets drawn p) (atPoint look assets [n] p) := by
  rw [atPoint_singleton]
  by_cases h : Hit assets p (look n)
  · have hfilter : ((drawn ++ [n]).filter fun n => Hit assets p (look n)).reverse =
        n :: (drawn.filter fun n => Hit assets p (look n)).reverse := by
      simp [h]
    rw [if_pos h, atPoint, hfilter, List.argmax_cons, atPoint]
    cases (drawn.filter fun n => Hit assets p (look n)).reverse.argmax
        fun n => (look n).zPosition with
    | none => rfl
    | some m => rfl
  · have hfilter : (drawn ++ [n]).filter (fun n => Hit assets p (look n)) =
        drawn.filter fun n => Hit assets p (look n) := by
      simp [h]
    rw [if_neg h, inFront_none, atPoint, hfilter, atPoint]

/-- What is drawn later lies over what is drawn before, unless its `zPosition` is smaller. -/
theorem atPoint_append (below above : List α) :
    atPoint look assets (below ++ above) p =
      inFront look (atPoint look assets below p) (atPoint look assets above p) := by
  induction above using List.reverseRecOn with
  | nil =>
    rw [List.append_nil, atPoint_nil, inFront_none]
  | append_singleton above n ih =>
    rw [← List.append_assoc, atPoint_concat, ih, inFront_assoc, ← atPoint_concat]

theorem atPoint_eq_some {drawn : List α} {n : α} (h : atPoint look assets drawn p = some n) :
    n ∈ drawn ∧ Hit assets p (look n) ∧
      ∀ m ∈ drawn, Hit assets p (look m) → (look m).zPosition ≤ (look n).zPosition := by
  have hmem := List.argmax_mem h
  rw [List.mem_reverse, List.mem_filter, decide_eq_true_eq] at hmem
  refine ⟨hmem.1, hmem.2, ?_⟩
  intro m hm hit
  have hfiltered : m ∈ (drawn.filter fun n => Hit assets p (look n)).reverse := by
    rw [List.mem_reverse, List.mem_filter, decide_eq_true_eq]
    exact ⟨hm, hit⟩
  exact List.le_of_mem_argmax (f := fun n => (look n).zPosition) hfiltered h

theorem atPoint_eq_none {drawn : List α} :
    atPoint look assets drawn p = none ↔ ∀ n ∈ drawn, ¬ Hit assets p (look n) := by
  rw [atPoint, List.argmax_eq_none, List.reverse_eq_nil_iff, List.filter_eq_nil_iff]
  simp

theorem atPoint_exists {drawn : List α} {n : α} (hn : n ∈ drawn) (hit : Hit assets p (look n)) :
    ∃ m, atPoint look assets drawn p = some m := by
  cases h : atPoint look assets drawn p with
  | some m => exact ⟨m, rfl⟩
  | none => exact absurd hit ((atPoint_eq_none look assets p).mp h n hn)

/-- A hit node covers what is drawn before it, unless that has a greater `zPosition`. -/
theorem atPoint_above {below above : List α} {n : α} (hn : n ∈ above)
    (hit : Hit assets p (look n))
    (hle : ∀ m ∈ below, Hit assets p (look m) → (look m).zPosition ≤ (look n).zPosition) :
    atPoint look assets (below ++ above) p = atPoint look assets above p := by
  obtain ⟨y, hy⟩ := atPoint_exists look assets p hn hit
  rw [atPoint_append, hy]
  cases hx : atPoint look assets below p with
  | none => rfl
  | some x =>
    obtain ⟨hmem, hitx, -⟩ := atPoint_eq_some look assets p hx
    obtain ⟨-, -, hgreatest⟩ := atPoint_eq_some look assets p hy
    have hxy : (look x).zPosition ≤ (look y).zPosition :=
      (hle x hmem hitx).trans (hgreatest n hn hit)
    rw [inFront, if_neg (not_lt.mpr hxy)]

theorem mem_above_of_atPoint {below above : List α} {m n : α}
    (h : atPoint look assets (below ++ above) p = some m) (hn : n ∈ above)
    (hit : Hit assets p (look n))
    (hle : ∀ m ∈ below, Hit assets p (look m) → (look m).zPosition ≤ (look n).zPosition) :
    m ∈ above := by
  rw [atPoint_above look assets p hn hit hle] at h
  exact (atPoint_eq_some look assets p h).1

/-- The front-most node: nothing drawn before it is higher, and nothing drawn after it is hit. -/
theorem atPoint_front {below above : List α} {n : α} (hit : Hit assets p (look n))
    (hle : ∀ m ∈ below, (look m).zPosition ≤ (look n).zPosition)
    (habove : ∀ m ∈ above, ¬ Hit assets p (look m)) :
    atPoint look assets (below ++ n :: above) p = some n := by
  have hnone : atPoint look assets above p = none := (atPoint_eq_none look assets p).mpr habove
  have hself : atPoint look assets [n] p = some n := by rw [atPoint_singleton, if_pos hit]
  rw [atPoint_above look assets p List.mem_cons_self hit fun m hm _ => hle m hm,
    ← List.singleton_append, atPoint_append, hnone, hself, inFront_none]

/-- A hit node is covered only by what is drawn after it at its `zPosition` or above. -/
theorem atPoint_below {below above : List α} {n : α} (hn : n ∈ below)
    (hit : Hit assets p (look n))
    (hlt : ∀ m ∈ above, Hit assets p (look m) → (look m).zPosition < (look n).zPosition) :
    atPoint look assets (below ++ above) p = atPoint look assets below p := by
  obtain ⟨x, hx⟩ := atPoint_exists look assets p hn hit
  rw [atPoint_append, hx]
  cases hy : atPoint look assets above p with
  | none => rfl
  | some y =>
    obtain ⟨hmem, hity, -⟩ := atPoint_eq_some look assets p hy
    obtain ⟨-, -, hgreatest⟩ := atPoint_eq_some look assets p hx
    have hyx : (look y).zPosition < (look x).zPosition :=
      (hlt y hmem hity).trans_le (hgreatest n hn hit)
    rw [inFront, if_pos hyx]

/-- A node is in front exactly when it is hit, is at least as high as what is drawn before it, and
is higher than what is drawn after it, as far as this is hit. -/
theorem atPoint_eq_some_iff {below above : List α} {n : α} (hn : n ∉ above) :
    atPoint look assets (below ++ n :: above) p = some n ↔ Hit assets p (look n) ∧
      (∀ m ∈ below, Hit assets p (look m) → (look m).zPosition ≤ (look n).zPosition) ∧
      ∀ m ∈ above, Hit assets p (look m) → (look m).zPosition < (look n).zPosition := by
  constructor
  · intro h
    obtain ⟨-, hit, hgreatest⟩ := atPoint_eq_some look assets p h
    refine ⟨hit, fun m hm => hgreatest m (List.mem_append_left _ hm), ?_⟩
    intro m hm hitm
    by_contra hle
    rw [not_lt] at hle
    rw [← List.singleton_append, ← List.append_assoc] at h
    refine hn (mem_above_of_atPoint look assets p h hm hitm ?_)
    intro x hx hitx
    refine (hgreatest x ?_ hitx).trans hle
    rw [List.mem_append, List.mem_singleton] at hx
    obtain hx | rfl := hx
    · exact List.mem_append_left _ hx
    · exact List.mem_append_right _ List.mem_cons_self
  · rintro ⟨hit, hle, hlt⟩
    rw [atPoint_above look assets p List.mem_cons_self hit hle, ← List.singleton_append,
      atPoint_below look assets p (List.mem_singleton_self n) hit hlt, atPoint_singleton,
      if_pos hit]

theorem asSprite_eq_ok {touched : Option α} {n : α} :
    asSprite look touched = .ok n ↔ touched = some n ∧ (look n).kind = .sprite := by
  cases touched with
  | none => simp [asSprite]
  | some m =>
    by_cases hkind : (look m).kind = .sprite
    · simp only [asSprite, if_pos hkind, Except.ok.injEq, Option.some.injEq]
      constructor
      · rintro rfl
        exact ⟨rfl, hkind⟩
      · rintro ⟨rfl, -⟩
        rfl
    · simp only [asSprite, if_neg hkind, reduceCtorEq, Option.some.injEq, false_iff, not_and]
      rintro rfl
      exact hkind

end AtPoint

end SpriteKit
