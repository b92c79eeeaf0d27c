import Mathlib.Data.List.Count
import Mathlib.Logic.Function.Basic

/-!
# Open files under handles that are used again

The kernel's side of a descriptor table: a handle names at most one open file, and is free again
once the file is closed. Every file has a serial number, which tells it from the files that had its
handle before; a holder, who will close it or hand it on; and a mark that an interest set has it. An
interest set knows files by their handles, so the mark goes with whatever file the handle names.

`Watched` says that the interest set has all files of one holder. `Accounts` sets the files against
a log of what was closed.
-/

namespace Npp.Foundation

structure OpenFile (τ : Type*) where
  serial : Nat
  holder : τ
  polled : Bool := false
deriving DecidableEq, Repr

/-- Serial numbers are given out in order, and never twice. -/
structure FileTable (η τ : Type*) where
  files : η → Option (OpenFile τ)
  opened : Nat
  serial_lt : ∀ h f, files h = some f → f.serial < opened
  serial_inj : ∀ h h' f f', files h = some f → files h' = some f' → f.serial = f'.serial → h = h'

namespace FileTable

variable {η τ : Type*}

theorem update_eq_some {ω : Type*} [DecidableEq η] {g : η → Option ω} {h j : η} {v : Option ω}
    {o : ω} :
    Function.update g h v j = some o ↔ (j = h ∧ v = some o) ∨ (j ≠ h ∧ g j = some o) := by
  by_cases hj : j = h
  · subst hj
    simp
  · simp [hj]

def empty : FileTable η τ where
  files _ := none
  opened := 0
  serial_lt _ _ h := nomatch h
  serial_inj _ _ _ _ h := nomatch h

section Operations

variable [DecidableEq η]

def openAt (T : FileTable η τ) (h : η) (holder : τ) : FileTable η τ where
  files := Function.update T.files h (some { serial := T.opened, holder := holder })
  opened := T.opened + 1
  serial_lt j f hf := by
    rcases update_eq_some.mp hf with ⟨-, hnew⟩ | ⟨-, hold⟩
    · obtain rfl := Option.some.inj hnew
      exact Nat.lt_succ_self _
    · exact Nat.lt_succ_of_lt (T.serial_lt j f hold)
  serial_inj j j' f f' hf hf' hserial := by
    rcases update_eq_some.mp hf with ⟨rfl, hnew⟩ | ⟨-, hold⟩ <;>
      rcases update_eq_some.mp hf' with ⟨rfl, hnew'⟩ | ⟨-, hold'⟩
    · rfl
    · obtain rfl := Option.some.inj hnew
      exact absurd hserial.symm (Nat.ne_of_lt (T.serial_lt j' f' hold'))
    · obtain rfl := Option.some.inj hnew'
      exact absurd hserial (Nat.ne_of_lt (T.serial_lt j f hold))
    · exact T.serial_inj j j' f f' hold hold' hserial

/-- Closing a handle that names nothing does nothing. -/
def close (T : FileTable η τ) (h : η) : FileTable η τ where
  files := Function.update T.files h none
  opened := T.opened
  serial_lt j f hf := by
    rcases update_eq_some.mp hf with ⟨-, hnone⟩ | ⟨-, hold⟩
    · cases hnone
    · exact T.serial_lt j f hold
  serial_inj j j' f f' hf hf' hserial := by
    rcases update_eq_some.mp hf with ⟨-, hnone⟩ | ⟨-, hold⟩
    · cases hnone
    · rcases update_eq_some.mp hf' with ⟨-, hnone⟩ | ⟨-, hold'⟩
      · cases hnone
      · exact T.serial_inj j j' f f' hold hold' hserial

/-- The file stays, with another holder and mark. -/
def remark (T : FileTable η τ) (h : η) (holder : τ → τ) (polled : Bool → Bool) :
    FileTable η τ where
  files := Function.update T.files h ((T.files h).map fun f =>
    { f with holder := holder f.holder, polled := polled f.polled })
  opened := T.opened
  serial_lt j f hf := by
    rcases update_eq_some.mp hf with ⟨rfl, hmap⟩ | ⟨-, hold⟩
    · obtain ⟨g, hg, rfl⟩ := Option.map_eq_some_iff.mp hmap
      exact T.serial_lt j g hg
    · exact T.serial_lt j f hold
  serial_inj j j' f f' hf hf' hserial := by
    rcases update_eq_some.mp hf with ⟨rfl, hmap⟩ | ⟨-, hold⟩ <;>
      rcases update_eq_some.mp hf' with ⟨rfl, hmap'⟩ | ⟨-, hold'⟩
    · rfl
    · obtain ⟨g, hg, rfl⟩ := Option.map_eq_some_iff.mp hmap
      exact T.serial_inj j j' g f' hg hold' hserial
    · obtain ⟨g, hg, rfl⟩ := Option.map_eq_some_iff.mp hmap'
      exact T.serial_inj j j' f g hold hg hserial
    · exact T.serial_inj j j' f f' hold hold' hserial

/-- The interest set takes the file that the handle names. -/
def add (T : FileTable η τ) (h : η) (holder : τ) : FileTable η τ :=
  T.remark h (fun _ => holder) (fun _ => true)

/-- The interest set drops the file that the handle names. -/
def del (T : FileTable η τ) (h : η) : FileTable η τ := T.remark h id (fun _ => false)

def pass (T : FileTable η τ) (h : η) (holder : τ) : FileTable η τ := T.remark h (fun _ => holder) id

end Operations

def serial (T : FileTable η τ) (h : η) : Option Nat := (T.files h).map OpenFile.serial

theorem serial_eq_some {T : FileTable η τ} {h : η} {i : Nat} :
    T.serial h = some i ↔ ∃ f, T.files h = some f ∧ f.serial = i := by
  rw [serial, Option.map_eq_some_iff]

variable {T : FileTable η τ} {h j : η} {x y : τ} {i k : Nat}

theorem serial_lt_opened (hi : T.serial h = some i) : i < T.opened := by
  obtain ⟨f, hf, rfl⟩ := serial_eq_some.mp hi
  exact T.serial_lt h f hf

theorem serial_unique (hh : T.serial h = some i) (hj : T.serial j = some i) : h = j := by
  obtain ⟨f, hf, hfi⟩ := serial_eq_some.mp hh
  obtain ⟨g, hg, hgi⟩ := serial_eq_some.mp hj
  exact T.serial_inj h j f g hf hg (hfi.trans hgi.symm)

/-! ## Who holds what -/

/-- The handle names the file, and this is who holds it. -/
def Has (T : FileTable η τ) (h : η) (serial : Nat) (holder : τ) : Prop :=
  ∃ f, T.files h = some f ∧ f.serial = serial ∧ f.holder = holder

theorem Has.serial (hhas : T.Has h i x) : T.serial h = some i := by
  obtain ⟨f, hf, hi, -⟩ := hhas
  exact serial_eq_some.mpr ⟨f, hf, hi⟩

/-- A file has one holder. -/
theorem Has.holder_eq (hx : T.Has h i x) (hy : T.Has h k y) : x = y := by
  obtain ⟨f, hf, -, rfl⟩ := hx
  obtain ⟨f', hf', -, rfl⟩ := hy
  obtain rfl := Option.some.inj (hf.symm.trans hf')
  rfl

variable [DecidableEq η]

theorem has_openAt : (T.openAt h x).Has h T.opened x :=
  ⟨_, Function.update_self _ _ _, rfl, rfl⟩

theorem Has.openAt (hhas : T.Has j i y) (hfree : T.files h = none) :
    (T.openAt h x).Has j i y := by
  obtain ⟨f, hf, hserial, hholder⟩ := hhas
  have hj : j ≠ h := by
    rintro rfl
    rw [hfree] at hf
    cases hf
  exact ⟨f, update_eq_some.mpr (Or.inr ⟨hj, hf⟩), hserial, hholder⟩

/-- Closing another handle. -/
theorem Has.close (hhas : T.Has j i y) (hj : j ≠ h) : (T.close h).Has j i y := by
  obtain ⟨f, hf, hserial, hholder⟩ := hhas
  exact ⟨f, update_eq_some.mpr (Or.inr ⟨hj, hf⟩), hserial, hholder⟩

variable {holder : τ → τ} {polled : Bool → Bool}

theorem Has.remark_self (hhas : T.Has h i y) :
    (T.remark h holder polled).Has h i (holder y) := by
  obtain ⟨f, hf, hserial, rfl⟩ := hhas
  refine ⟨{ f with holder := holder f.holder, polled := polled f.polled }, ?_, hserial, rfl⟩
  apply update_eq_some.mpr
  exact Or.inl ⟨rfl, by rw [hf, Option.map_some]⟩

/-- The files of other handles stay as they are. -/
theorem Has.remark (hhas : T.Has j i y) (hj : j ≠ h) :
    (T.remark h holder polled).Has j i y := by
  obtain ⟨f, hf, hserial, hholder⟩ := hhas
  exact ⟨f, update_eq_some.mpr (Or.inr ⟨hj, hf⟩), hserial, hholder⟩

/-- A dropped file keeps its holder. -/
theorem Has.del (hhas : T.Has j i y) : (T.del h).Has j i y := by
  by_cases hj : j = h
  · subst hj
    exact hhas.remark_self
  · exact hhas.remark hj

/-! ## An interest set that misses nothing -/

/-- The interest set has all files of the holder. -/
def Watched (x : τ) (T : FileTable η τ) : Prop :=
  ∀ h f, T.files h = some f → f.holder = x → f.polled = true

omit [DecidableEq η] in
theorem watched_empty : Watched x (empty : FileTable η τ) := fun _ _ h => nomatch h

theorem Watched.openAt (hw : Watched x T) (hy : y ≠ x) : Watched x (T.openAt h y) := by
  intro j f hf hx
  rcases update_eq_some.mp hf with ⟨-, hnew⟩ | ⟨-, hold⟩
  · obtain rfl := Option.some.inj hnew
    exact absurd hx hy
  · exact hw j f hold hx

theorem Watched.close (hw : Watched x T) : Watched x (T.close h) := by
  intro j f hf hx
  rcases update_eq_some.mp hf with ⟨-, hnone⟩ | ⟨-, hold⟩
  · cases hnone
  · exact hw j f hold hx

theorem Watched.remark (hw : Watched x T)
    (hmark : ∀ f, T.files h = some f → holder f.holder = x → polled f.polled = true) :
    Watched x (T.remark h holder polled) := by
  intro j f hf hx
  rcases update_eq_some.mp hf with ⟨-, hmap⟩ | ⟨-, hold⟩
  · obtain ⟨g, hg, rfl⟩ := Option.map_eq_some_iff.mp hmap
    exact hmark g hg hx
  · exact hw j f hold hx

theorem Watched.add (hw : Watched x T) : Watched x (T.add h y) :=
  hw.remark fun _ _ _ => rfl

theorem Watched.pass (hw : Watched x T) (hy : y ≠ x) : Watched x (T.pass h y) :=
  hw.remark fun _ _ hx => absurd hx hy

/-- A handle may be dropped exactly when it names no file of the holder. -/
theorem watched_del_iff (hw : Watched x T) :
    Watched x (T.del h) ↔ ∀ f, T.files h = some f → f.holder ≠ x := by
  constructor
  · intro hw' f hf hx
    have hmarked : (T.del h).files h = some { f with polled := false } := by
      apply update_eq_some.mpr
      exact Or.inl ⟨rfl, by rw [hf, Option.map_some, id]⟩
    have hpolled := hw' h _ hmarked hx
    cases hpolled
  · intro hother
    exact hw.remark fun f hf hx => absurd hx (hother f hf)

/-! ## Accounts of what was closed -/

/-- The log has every file that is closed once, and no file that is open. -/
structure Accounts (T : FileTable η τ) (log : List Nat) : Prop where
  given : ∀ i ∈ log, i < T.opened
  isOpen : ∀ h i, T.serial h = some i → log.count i = 0
  isClosed : ∀ i, i < T.opened → (∀ h, T.serial h ≠ some i) → log.count i = 1

omit [DecidableEq η] in
theorem accounts_empty : Accounts (empty : FileTable η τ) [] := by
  constructor
  · exact fun _ h => nomatch h
  · exact fun _ _ h => nomatch h
  · exact fun _ h => absurd h (Nat.not_lt_zero _)

variable {log : List Nat}

theorem serial_openAt : (T.openAt h x).serial j = some i ↔
    (j = h ∧ i = T.opened) ∨ (j ≠ h ∧ T.serial j = some i) := by
  simp only [serial_eq_some]
  constructor
  · rintro ⟨f, hf, rfl⟩
    rcases update_eq_some.mp hf with ⟨hj, hnew⟩ | ⟨hj, hold⟩
    · obtain rfl := Option.some.inj hnew
      exact Or.inl ⟨hj, rfl⟩
    · exact Or.inr ⟨hj, f, hold, rfl⟩
  · rintro (⟨hj, rfl⟩ | ⟨hj, f, hf, rfl⟩)
    · exact ⟨_, update_eq_some.mpr (Or.inl ⟨hj, rfl⟩), rfl⟩
    · exact ⟨f, update_eq_some.mpr (Or.inr ⟨hj, hf⟩), rfl⟩

theorem serial_close : (T.close h).serial j = some i ↔ j ≠ h ∧ T.serial j = some i := by
  simp only [serial_eq_some]
  constructor
  · rintro ⟨f, hf, rfl⟩
    rcases update_eq_some.mp hf with ⟨-, hnone⟩ | ⟨hj, hold⟩
    · cases hnone
    · exact ⟨hj, f, hold, rfl⟩
  · rintro ⟨hj, f, hf, rfl⟩
    exact ⟨f, update_eq_some.mpr (Or.inr ⟨hj, hf⟩), rfl⟩

theorem serial_remark : (T.remark h holder polled).serial = T.serial := by
  funext j
  show (Function.update T.files h ((T.files h).map _) j).map _ = (T.files j).map _
  by_cases hj : j = h
  · subst hj
    rw [Function.update_self, Option.map_map]
    rfl
  · rw [Function.update_of_ne hj]

theorem serial_add : (T.add h x).serial = T.serial := serial_remark

theorem serial_del : (T.del h).serial = T.serial := serial_remark

theorem serial_pass : (T.pass h x).serial = T.serial := serial_remark

theorem Accounts.openAt (ha : Accounts T log) (hfree : T.files h = none) :
    Accounts (T.openAt h x) log := by
  have hfree' : T.serial h = none := by rw [serial, hfree, Option.map_none]
  constructor
  · intro i hi
    exact Nat.lt_succ_of_lt (ha.given i hi)
  · intro j i hi
    rcases serial_openAt.mp hi with ⟨-, rfl⟩ | ⟨-, hold⟩
    · apply List.count_eq_zero_of_not_mem
      exact fun hmem => absurd (ha.given _ hmem) (Nat.lt_irrefl _)
    · exact ha.isOpen j i hold
  · intro i hi hnone
    have hne : i ≠ T.opened := by
      rintro rfl
      exact hnone h (serial_openAt.mpr (Or.inl ⟨rfl, rfl⟩))
    change i < T.opened + 1 at hi
    apply ha.isClosed i (by omega)
    intro j hj
    have hjh : j ≠ h := by
      rintro rfl
      rw [hfree'] at hj
      cases hj
    exact hnone j (serial_openAt.mpr (Or.inr ⟨hjh, hj⟩))

theorem Accounts.close (ha : Accounts T log) (hi : T.serial h = some i) :
    Accounts (T.close h) (log ++ [i]) := by
  have hcount : ∀ k, k ≠ i → (log ++ [i]).count k = log.count k := by
    intro k hk
    have hnot : k ∉ [i] := fun hmem => hk (List.mem_singleton.mp hmem)
    rw [List.count_append, List.count_eq_zero_of_not_mem hnot, Nat.add_zero]
  constructor
  · intro k hk
    rcases List.mem_append.mp hk with hk | hk
    · exact ha.given k hk
    · rw [List.mem_singleton.mp hk]
      have hlt : i < T.opened := serial_lt_opened hi
      exact hlt
  · intro j k hk
    obtain ⟨hj, hold⟩ := serial_close.mp hk
    have hki : k ≠ i := by
      rintro rfl
      exact hj (serial_unique hold hi)
    rw [hcount k hki]
    exact ha.isOpen j k hold
  · intro k hk hnone
    by_cases hki : k = i
    · subst hki
      rw [List.count_append, ha.isOpen h k hi, List.count_singleton_self]
    · rw [hcount k hki]
      apply ha.isClosed k hk
      intro j hj
      by_cases hjh : j = h
      · subst hjh
        exact hki (Option.some.inj (hj.symm.trans hi))
      · exact hnone j (serial_close.mpr ⟨hjh, hj⟩)

omit [DecidableEq η] in
/-- Accounts are about serial numbers only. -/
theorem Accounts.congr {T' : FileTable η τ} (ha : Accounts T log) (hopened : T'.opened = T.opened)
    (hserial : T'.serial = T.serial) : Accounts T' log := by
  constructor
  · rw [hopened]
    exact ha.given
  · rw [hserial]
    exact ha.isOpen
  · rw [hopened, hserial]
    exact ha.isClosed

omit [DecidableEq η] in
/-- Everything is closed once exactly when nothing is open any more. -/
theorem Accounts.closed_once_iff (ha : Accounts T log) :
    (∀ i < T.opened, log.count i = 1) ↔ ∀ h, T.files h = none := by
  constructor
  · intro honce h
    by_contra hne
    obtain ⟨f, hf⟩ := Option.ne_none_iff_exists'.mp hne
    have hserial : T.serial h = some f.serial := serial_eq_some.mpr ⟨f, hf, rfl⟩
    have hzero := ha.isOpen h f.serial hserial
    have hone := honce f.serial (T.serial_lt h f hf)
    omega
  · intro hnone i hi
    apply ha.isClosed i hi
    intro h hh
    rw [serial, hnone h] at hh
    cases hh

end FileTable

end Npp.Foundation
