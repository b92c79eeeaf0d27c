import Mathlib.Data.List.Perm.Basic

/-!
# Priority queues with an unspecified order below the top

Of a priority queue a client sees the top, the least element by `key`, and it can push and pop.
Where the remaining elements stand, and which of several least ones is on top, is left to the
implementation. `Topped` is a content with its top in front; `PriorityQueue` collects what every
implementation guarantees, and `PriorityQueue.linear` is one.
-/

namespace Npp.Foundation

variable {α : Type*}

/-- A content whose first element, the top, is least. -/
structure Topped (key : α → Int) where
  elems : List α
  least : ∀ a rest, elems = a :: rest → ∀ b ∈ rest, key a ≤ key b

namespace Topped

variable {key : α → Int}

def empty : Topped key := ⟨[], fun _ _ h => absurd h (List.cons_ne_nil _ _).symm⟩

def top? (q : Topped key) : Option α := q.elems.head?

variable {q : Topped key} {a b : α}

theorem mem_of_top? (h : q.top? = some a) : a ∈ q.elems := List.mem_of_mem_head? h

theorem eq_nil_of_top? (h : q.top? = none) : q.elems = [] := List.head?_eq_none_iff.mp h

/-- Nothing is less than the top. -/
theorem top?_le (h : q.top? = some a) (hb : b ∈ q.elems) : key a ≤ key b := by
  have hcons : q.elems = a :: q.elems.tail := List.eq_cons_of_mem_head? h
  rw [hcons] at hb
  rcases List.mem_cons.mp hb with rfl | hb
  · exact Int.le_refl _
  · exact q.least a _ hcons b hb

end Topped

/-- An implementation: what `push` and `pop` do to the content. -/
structure PriorityQueue (key : α → Int) where
  push : Topped key → α → Topped key
  pop : Topped key → Topped key
  push_perm : ∀ q a, (push q a).elems.Perm (a :: q.elems)
  pop_perm : ∀ q a, q.top? = some a → (a :: (pop q).elems).Perm q.elems

namespace PriorityQueue

variable {key : α → Int}

theorem push_top?_ne_none (Q : PriorityQueue key) (q : Topped key) (a : α) :
    (Q.push q a).top? ≠ none := by
  intro hnone
  have hnil : (Q.push q a).elems = [] := List.head?_eq_none_iff.mp hnone
  have hperm := Q.push_perm q a
  rw [hnil] at hperm
  exact List.cons_ne_nil _ _ hperm.symm.eq_nil

theorem pop_length (Q : PriorityQueue key) {q : Topped key} (h : q.top? ≠ none) :
    (Q.pop q).elems.length + 1 = q.elems.length := by
  obtain ⟨a, ha⟩ := Option.ne_none_iff_exists'.mp h
  exact (Q.pop_perm q a ha).length_eq

theorem mem_push (Q : PriorityQueue key) {q : Topped key} {a b : α} :
    b ∈ (Q.push q a).elems ↔ b = a ∨ b ∈ q.elems := by
  rw [(Q.push_perm q a).mem_iff, List.mem_cons]

theorem mem_of_mem_pop (Q : PriorityQueue key) {q : Topped key} (h : q.top? ≠ none) {b : α}
    (hb : b ∈ (Q.pop q).elems) : b ∈ q.elems := by
  obtain ⟨a, ha⟩ := Option.ne_none_iff_exists'.mp h
  exact (Q.pop_perm q a ha).mem_iff.mp (List.mem_cons_of_mem a hb)

/-- A new element displaces only a greater top, as when it is sifted up past greater ones. -/
def KeepsTop (Q : PriorityQueue key) : Prop :=
  ∀ q a b, q.top? = some a → key a ≤ key b → (Q.push q b).top? = some a

/-- Bring a least element to the front. -/
def least (key : α → Int) : List α → List α
  | [] => []
  | a :: rest =>
      match least key rest with
      | [] => [a]
      | b :: rest' => if key b < key a then b :: a :: rest' else a :: b :: rest'

theorem least_perm (key : α → Int) (l : List α) : (least key l).Perm l := by
  induction l with
  | nil => exact List.Perm.nil
  | cons a rest ih =>
      unfold least
      split
      case h_1 hrest =>
        rw [hrest] at ih
        exact ih.cons a
      case h_2 b rest' hrest =>
        rw [hrest] at ih
        split
        case isTrue => exact (List.Perm.swap a b rest').trans (ih.cons a)
        case isFalse => exact ih.cons a

theorem least_least (key : α → Int) (l : List α) :
    ∀ a rest, least key l = a :: rest → ∀ b ∈ rest, key a ≤ key b := by
  induction l with
  | nil => intro a rest h; exact absurd h (List.cons_ne_nil _ _).symm
  | cons x xs ih =>
      intro a rest h b hb
      unfold least at h
      split at h
      case h_1 hrest =>
        obtain ⟨rfl, rfl⟩ := List.cons.inj h
        exact absurd hb List.not_mem_nil
      case h_2 y ys hrest =>
        split at h
        case isTrue hlt =>
          obtain ⟨rfl, rfl⟩ := List.cons.inj h
          rcases List.mem_cons.mp hb with rfl | hb
          · exact Int.le_of_lt hlt
          · exact ih _ _ hrest b hb
        case isFalse hge =>
          obtain ⟨rfl, rfl⟩ := List.cons.inj h
          have hxy := Int.not_lt.mp hge
          rcases List.mem_cons.mp hb with rfl | hb
          · exact hxy
          · exact Int.le_trans hxy (ih _ _ hrest b hb)

/-- A list searched for its least element at each operation. -/
def linear (key : α → Int) : PriorityQueue key where
  push q a := ⟨least key (q.elems ++ [a]), least_least key _⟩
  pop q := ⟨least key q.elems.tail, least_least key _⟩
  push_perm q a := (least_perm key _).trans (List.perm_append_singleton a q.elems)
  pop_perm q a h := by
    have hcons : q.elems = a :: q.elems.tail := List.eq_cons_of_mem_head? h
    exact ((least_perm key _).cons a).trans (hcons ▸ List.Perm.refl _)

/-- Of several least elements the first one comes to the front. -/
theorem head?_least {a : α} {rest : List α} (h : ∀ b ∈ rest, key a ≤ key b) :
    (least key (a :: rest)).head? = some a := by
  unfold least
  split
  case h_1 => rfl
  case h_2 b rest' hrest =>
    have hb : b ∈ rest := (least_perm key rest).subset (hrest ▸ List.mem_cons_self)
    rw [if_neg (Int.not_lt.mpr (h b hb))]
    rfl

theorem linear_keepsTop (key : α → Int) : (linear key).KeepsTop := by
  intro q a b ha hle
  have hcons : q.elems = a :: q.elems.tail := List.eq_cons_of_mem_head? ha
  show (least key (q.elems ++ [b])).head? = some a
  rw [hcons, List.cons_append]
  apply head?_least
  intro c hc
  rcases List.mem_append.mp hc with hc | hc
  · exact q.least a _ hcons c hc
  · exact List.mem_singleton.mp hc ▸ hle

end PriorityQueue

end Npp.Foundation
