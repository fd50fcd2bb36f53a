import MaluDb.Lib.Walk
import Mathlib.Data.List.Perm.Basic

/-!
# Trees and the two orders of a walk

A tree is unfolded from a function that gives the children of a value. A recursive query finds the
values level by level; the tree in pre-order lists them branch by branch.
-/

namespace MaluDb.Lib

open List

/-- A value with its branches. -/
inductive RoseTree (α : Type) where
  | node (value : α) (children : List (RoseTree α))

namespace RoseTree

variable {α β : Type}

mutual

def preorder : RoseTree α → List α
  | node value children => value :: preorderAll children

def preorderAll : List (RoseTree α) → List α
  | [] => []
  | t :: ts => preorder t ++ preorderAll ts

end

theorem preorderAll_eq_flatMap : ∀ ts : List (RoseTree α), preorderAll ts = ts.flatMap preorder
  | [] => rfl
  | t :: ts => by rw [preorderAll, preorderAll_eq_flatMap ts, flatMap_cons]

theorem preorder_node (value : α) (children : List (RoseTree α)) :
    (node value children).preorder = value :: children.flatMap preorder := by
  rw [preorder, preorderAll_eq_flatMap]

end RoseTree

section

variable {α : Type} {f g : α → List α}

/-- A value with those at most `n` levels below it, each before those below it. -/
def depthFirst (f : α → List α) : ℕ → α → List α
  | 0, a => [a]
  | n + 1, a => a :: (f a).flatMap (depthFirst f n)

theorem unionAll_perm_depthFirst : ∀ (n : ℕ) (rows : List α),
    (Walk.unionAll f (n + 1) rows).Perm (rows.flatMap (depthFirst f n))
  | 0, rows => by
    rw [Walk.unionAll, Walk.unionAll, append_nil]
    simp [depthFirst]
  | n + 1, rows => by
    have hcons : ∀ rows : List α,
        (rows ++ rows.flatMap fun a => (f a).flatMap (depthFirst f n)).Perm
          (rows.flatMap (depthFirst f (n + 1))) := by
      intro rows
      induction rows with
      | nil => exact List.Perm.nil
      | cons a rows ih =>
        rw [flatMap_cons, flatMap_cons, depthFirst, cons_append, cons_append]
        refine List.Perm.cons a ?_
        -- the values below `a` move in front of the other rows
        rw [← append_assoc]
        refine (perm_append_comm.append_right _).trans ?_
        rw [append_assoc]
        exact ih.append_left _
    rw [Walk.unionAll]
    refine ((unionAll_perm_depthFirst n _).append_left rows).trans ?_
    rw [flatMap_assoc]
    exact hcons rows

theorem depthFirst_perm (h : ∀ a, (f a).Perm (g a)) :
    ∀ (n : ℕ) (a : α), (depthFirst f n a).Perm (depthFirst g n a)
  | 0, _ => List.Perm.refl _
  | n + 1, a => ((h a).flatMap fun b _ => depthFirst_perm h n b).cons a

end

end MaluDb.Lib
