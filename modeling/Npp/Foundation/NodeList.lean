import Mathlib.Data.List.Nodup
import Mathlib.Data.List.Basic

/-!
# Lists whose elements stay in their nodes

An iterator into such a list is the node of an element, or the place past the last one. To erase an
element takes its node away and no other, so the iterators to all other elements stay valid, and
those to the erased one lead nowhere.
-/

namespace Npp.Foundation

/-- The nodes in order, each with its element. -/
structure NodeList (α : Type*) where
  nodes : List (ℕ × α)
  nodup : (nodes.map Prod.fst).Nodup

namespace NodeList

inductive Iterator where
  | node (i : ℕ)
  | past
deriving DecidableEq, Repr

variable {α : Type*}

/-- The iterator to the front of some nodes that the rest of the list is made of. -/
def front : List (ℕ × α) → Iterator
  | [] => .past
  | (i, _) :: _ => .node i

def begin (l : NodeList α) : Iterator := front l.nodes

def elems (l : NodeList α) : List α := l.nodes.map Prod.snd

/-- The element in a node, or `none` when the list has no such node. -/
def deref (l : NodeList α) (i : ℕ) : Option α := l.nodes.lookup i

/-- The iterator behind a node of some nodes. -/
def behind : List (ℕ × α) → ℕ → Option Iterator
  | [], _ => none
  | (j, _) :: rest, i => if j = i then some (front rest) else behind rest i

def next (l : NodeList α) (i : ℕ) : Option Iterator := behind l.nodes i

def erase (l : NodeList α) (i : ℕ) : NodeList α where
  nodes := l.nodes.filter fun n => n.1 ≠ i
  nodup := l.nodup.sublist (List.filter_sublist.map Prod.fst)

/-! ## A list cut at a node -/

variable {l : NodeList α} {pre post : List (ℕ × α)} {i : ℕ} {x : α}

/-- A node stands at one place of the list only. -/
theorem ne_of_mem_pre (h : l.nodes = pre ++ (i, x) :: post) {n : ℕ × α} (hn : n ∈ pre) :
    n.1 ≠ i := by
  have hnodup := l.nodup
  rw [h, List.map_append, List.map_cons, List.nodup_append] at hnodup
  exact hnodup.2.2 n.1 (List.mem_map_of_mem hn) i List.mem_cons_self

theorem deref_of_split (h : l.nodes = pre ++ (i, x) :: post) : l.deref i = some x := by
  have hpre : pre.lookup i = none := by
    apply List.lookup_eq_none_iff.mpr
    intro n hn
    exact bne_iff_ne.mpr (ne_of_mem_pre h hn).symm
  rw [deref, h, List.lookup_append, hpre, Option.none_or, List.lookup_cons_self]

theorem next_of_split (h : l.nodes = pre ++ (i, x) :: post) : l.next i = some (front post) := by
  have hpre : ∀ n ∈ pre, n.1 ≠ i := fun n hn => ne_of_mem_pre h hn
  rw [next, h]
  clear h
  induction pre with
  | nil => exact if_pos rfl
  | cons n pre ih =>
      obtain ⟨j, y⟩ := n
      have hne : j ≠ i := hpre (j, y) List.mem_cons_self
      rw [List.cons_append, behind, if_neg hne]
      exact ih fun m hm => hpre m (List.mem_cons_of_mem _ hm)

/-- An iterator to an erased element leads nowhere. -/
theorem deref_erase (l : NodeList α) (i : ℕ) : (l.erase i).deref i = none := by
  apply List.lookup_eq_none_iff.mpr
  intro n hn
  have hne : n.1 ≠ i := by simpa using List.of_mem_filter hn
  exact bne_iff_ne.mpr hne.symm

end NodeList

end Npp.Foundation
