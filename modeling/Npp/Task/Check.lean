import Npp.Foundation.NodeList
import Npp.Task.Keeper

/-!
# The sweep of the keeper

`TaskKeeper::check` goes over the kept packs and erases those whose task has finished. It does not
take the iterator that `erase` returns, and looks at its own one again.
-/

namespace Npp.Task

open Npp.Foundation

namespace TaskKeeper

variable {P : Type}

/-- How `check` ends; in `undefined` it has used an iterator to an erased pack. -/
inductive Swept (P : Type) where
  | done (tasks : NodeList P)
  | undefined
  | outOfFuel

/-- The loop of `check`, where `finished` is what `it->check()` answers. -/
def sweep (finished : P → Bool) : (fuel : Nat) → NodeList P → NodeList.Iterator → Swept P
  | 0, _, _ => .outOfFuel
  | _ + 1, tasks, .past => .done tasks
  | fuel + 1, tasks, .node it =>
      match tasks.deref it with
      | none => .undefined
      | some pack =>
          if finished pack then sweep finished fuel (tasks.erase it) (.node it)
          else
            match tasks.next it with
            | none => .undefined
            | some it => sweep finished fuel tasks it

def check (finished : P → Bool) (fuel : Nat) (tasks : NodeList P) : Swept P :=
  sweep finished fuel tasks tasks.begin

/-- The sweep has come to its end with the unfinished packs, in their nodes and in their order. -/
def Filters (finished : P → Bool) (tasks : NodeList P) (r : Swept P) : Prop :=
  ∃ tasks', r = .done tasks' ∧ tasks'.nodes = tasks.nodes.filter fun n => !finished n.2

variable {finished : P → Bool} {tasks : NodeList P}

/-- The iterator of a finished pack is used again. -/
theorem sweep_erased (fuel it : Nat) :
    sweep finished (fuel + 1) (tasks.erase it) (.node it) = .undefined := by
  rw [sweep, NodeList.deref_erase]

/-- The sweep of what is left, after packs that have not finished. -/
theorem sweep_eq {pre post : List (Nat × P)} (hsplit : tasks.nodes = pre ++ post) {fuel : Nat}
    (hfuel : post.length < fuel) :
    sweep finished fuel tasks (NodeList.front post) =
      if ∀ n ∈ post, finished n.2 = false then .done tasks else .undefined := by
  obtain ⟨fuel, rfl⟩ : ∃ k, fuel = k + 1 := ⟨fuel - 1, by omega⟩
  induction post generalizing pre fuel with
  | nil =>
      have hnil : ∀ n ∈ ([] : List (Nat × P)), finished n.2 = false :=
        fun _ hn => absurd hn List.not_mem_nil
      rw [NodeList.front, sweep, if_pos hnil]
  | cons n post ih =>
      obtain ⟨it, pack⟩ := n
      rw [List.length_cons] at hfuel
      obtain ⟨fuel, rfl⟩ : ∃ k, fuel = k + 1 := ⟨fuel - 1, by omega⟩
      rw [NodeList.front, sweep, NodeList.deref_of_split hsplit]
      dsimp only
      cases hpack : finished pack with
      | true =>
          have hsome : ¬ ∀ n ∈ (it, pack) :: post, finished n.2 = false := by
            intro hall
            have hnot := hall (it, pack) List.mem_cons_self
            rw [hpack] at hnot
            cases hnot
          rw [if_pos rfl, sweep_erased, if_neg hsome]
      | false =>
          have hnext : tasks.nodes = (pre ++ [(it, pack)]) ++ post := by
            rw [hsplit, List.append_assoc, List.singleton_append]
          rw [if_neg Bool.false_ne_true, NodeList.next_of_split hsplit]
          dsimp only
          rw [ih hnext fuel (by omega)]
          simp only [List.forall_mem_cons, hpack, true_and]

theorem check_eq {fuel : Nat} (hfuel : tasks.nodes.length < fuel) :
    check finished fuel tasks =
      if ∀ n ∈ tasks.nodes, finished n.2 = false then .done tasks else .undefined :=
  sweep_eq (List.nil_append tasks.nodes).symm hfuel

/-- **`check` filters in place.** It comes to its end with exactly the unfinished packs, and uses no
iterator to an erased one, just when there is no finished pack to erase. -/
theorem check_filters_iff (finished : P → Bool) (tasks : NodeList P) :
    (∀ fuel, tasks.nodes.length < fuel → Filters finished tasks (check finished fuel tasks)) ↔
      ∀ pack ∈ tasks.elems, finished pack = false := by
  have helems : (∀ pack ∈ tasks.elems, finished pack = false) ↔
      ∀ n ∈ tasks.nodes, finished n.2 = false := List.forall_mem_map
  rw [helems]
  constructor
  · intro hfilters
    obtain ⟨tasks', hdone, -⟩ := hfilters _ (Nat.lt_succ_self _)
    rw [check_eq (Nat.lt_succ_self _)] at hdone
    by_contra hsome
    rw [if_neg hsome] at hdone
    cases hdone
  · intro hnone fuel hfuel
    refine ⟨tasks, by rw [check_eq hfuel, if_pos hnone], ?_⟩
    symm
    apply List.filter_eq_self.mpr
    intro n hn
    rw [hnone n hn, Bool.not_false]

/-- One kept pack, whose task has finished. -/
theorem not_check_filters :
    ∃ tasks : NodeList (KeptPromise Nat), tasks.nodes.length < 2 ∧
      check KeptPromise.entirelyFinish 2 tasks = .undefined ∧
      ¬ Filters KeptPromise.entirelyFinish tasks (check KeptPromise.entirelyFinish 2 tasks) := by
  refine ⟨⟨[(0, .published (.ofValue 7))], by decide⟩, by decide, rfl, ?_⟩
  rintro ⟨tasks', hdone, -⟩
  cases hdone

end TaskKeeper

end Npp.Task
