import Mathlib.Logic.Function.Basic
import Npp.Foundation.Machine
import Npp.Basic.Buffer

/-!
# Who owns the array of a `Bytes`

The constructors of `Bytes`, its destructor, `deepcopy`, the two moves and `set` on the heap: an
object is a size and a pointer to an array that it deletes. Above it stands the machine in which an
object simply holds its bytes. A run of objects and arrays is one of that machine as long as no
`set` writes behind an array, and it leaks nothing as long as no assignment replaces an array.
-/

namespace Npp.Basic

open Npp.Foundation

/-- The fields of a `Bytes`; `none` is the null pointer. -/
structure BytesObject where
  size : Nat
  data : Option Nat
deriving DecidableEq, Repr

inductive BytesLabel (ω : Type*) where
  /-- `Bytes()`. -/
  | empty (x : ω)
  /-- `Bytes(size)`, with the bytes found on the heap. -/
  | ofSize (x : ω) (size : BitVec 64) (heap : Nat → UInt8)
  /-- `Bytes(data, size)`. -/
  | ofData (x : ω) (source : Source)
  /-- `Bytes(Bytes&& ano)`. -/
  | move (x ano : ω)
  /-- `operator=(Bytes&& ano)`. -/
  | assign (x ano : ω)
  /-- `~Bytes()`. -/
  | destroy (x : ω)
  /-- The new object is what `y.deepcopy()` returns. -/
  | deepcopy (x y : ω)
  | set (x : ω) (source : Source) (start : BitVec 64)

/-- The arrays on the heap and the objects alive. After an access to what is no array, or the
deletion of it, nothing more can be said. -/
structure BytesState (ω : Type*) where
  blocks : Nat → Option (List UInt8)
  next : Nat
  objects : ω → Option BytesObject
  invalid : Bool

namespace BytesState

variable {ω : Type*} [DecidableEq ω]

def put (s : BytesState ω) (x : ω) (o : BytesObject) : BytesState ω :=
  { s with objects := Function.update s.objects x (some o) }

/-- `new unsigned char[size]`, with this content, for the object. -/
def allocate (s : BytesState ω) (x : ω) (content : List UInt8) : BytesState ω :=
  { s with
    blocks := Function.update s.blocks s.next (some content)
    next := s.next + 1
    objects := Function.update s.objects x (some ⟨content.length, some s.next⟩) }

/-- The object has the fields of the other one, which has none any longer. -/
def transfer (s : BytesState ω) (x ano : ω) (o : BytesObject) : BytesState ω :=
  (s.put x o).put ano ⟨0, none⟩

/-- `delete[] _data`, and the object is gone. -/
def delete (s : BytesState ω) (x : ω) (o : BytesObject) : BytesState ω :=
  let s := { s with objects := Function.update s.objects x none }
  match o.data with
  | none => s
  | some b =>
      match s.blocks b with
      | none => { s with invalid := true }
      | some _ => { s with blocks := Function.update s.blocks b none }

/-- `memcpy(_data + start, source, size)`. -/
def store (s : BytesState ω) (o : BytesObject) (source : List UInt8) (start : Nat) : BytesState ω :=
  match o.data.bind fun b => (s.blocks b).map fun content => (b, content) with
  | none => if source = [] then s else { s with invalid := true }
  | some (b, content) =>
      if start + source.length ≤ content.length then
        let content := content.take start ++ source ++ content.drop (start + source.length)
        { s with blocks := Function.update s.blocks b (some content) }
      else { s with invalid := true }

def load (s : BytesState ω) (o : BytesObject) : Option (List UInt8) :=
  (o.data.bind s.blocks).bind fun content =>
    if o.size ≤ content.length then some (content.take o.size) else none

def step (s : BytesState ω) (l : BytesLabel ω) : Option (BytesState ω) :=
  if s.invalid then none else
    match l with
    | .empty x => if s.objects x = none then some (s.put x ⟨0, none⟩) else none
    | .ofSize x size heap =>
        if s.objects x = none ∧ size.toNat > 0 then
          some (s.allocate x ((List.range size.toNat).map heap))
        else none
    | .ofData x source =>
        if s.objects x = none ∧ source.bytes.length > 0 then some (s.allocate x source.bytes)
        else none
    | .move x ano =>
        match s.objects x, s.objects ano with
        | none, some o => some (s.transfer x ano o)
        | _, _ => none
    | .assign x ano =>
        match s.objects x, s.objects ano with
        | some _, some o => some (s.transfer x ano o)
        | _, _ => none
    | .destroy x =>
        match s.objects x with
        | none => none
        | some o => some (s.delete x o)
    | .deepcopy x y =>
        match s.objects x, s.objects y with
        | none, some o =>
            -- the constructor asserts both
            if o.size > 0 ∧ o.data ≠ none then
              match s.load o with
              | none => some { s with invalid := true }
              | some content => some (s.allocate x content)
            else none
        | _, _ => none
    | .set x source start =>
        match s.objects x with
        | none => none
        | some o =>
            if (start.toNat + source.bytes.length) % 2 ^ 64 > o.size then some s
            else some (s.store o source.bytes start.toNat)

def machine (ω : Type*) [DecidableEq ω] : Machine (BytesState ω) (BytesLabel ω) where
  init := ⟨fun _ => none, 0, fun _ => none, false⟩
  step := step

end BytesState

/-! ## Objects as values -/

abbrev BytesValues (ω : Type*) := ω → Option Bytes

namespace BytesValues

variable {ω : Type*} [DecidableEq ω]

def step (v : BytesValues ω) : BytesLabel ω → Option (BytesValues ω)
  | .empty x => if v x = none then some (Function.update v x (some ⟨[]⟩)) else none
  | .ofSize x size heap =>
      if v x = none then
        (Bytes.alloc size.toNat heap).map fun b => Function.update v x (some b)
      else none
  | .ofData x source =>
      if v x = none ∧ source.bytes ≠ [] then some (Function.update v x (some ⟨source.bytes⟩))
      else none
  | .move x ano =>
      match v x, v ano with
      | none, some b => some (Function.update (Function.update v x (some b)) ano (some ⟨[]⟩))
      | _, _ => none
  | .assign x ano =>
      match v x, v ano with
      | some _, some b => some (Function.update (Function.update v x (some b)) ano (some ⟨[]⟩))
      | _, _ => none
  | .destroy x => if v x = none then none else some (Function.update v x none)
  | .deepcopy x y =>
      match v x, v y with
      | none, some b => if b.data = [] then none else some (Function.update v x (some b))
      | _, _ => none
  | .set x source start =>
      match v x with
      | none => none
      | some b =>
          match b.set source.bytes start.toNat with
          | .error _ => some v
          | .ok b => some (Function.update v x (some b))

def machine (ω : Type*) [DecidableEq ω] : Machine (BytesValues ω) (BytesLabel ω) where
  init := fun _ => none
  step := step

end BytesValues

namespace BytesState

variable {ω : Type*} [DecidableEq ω]

def content (s : BytesState ω) (o : BytesObject) : Bytes := ⟨((o.data.bind s.blocks).getD [])⟩

def values (s : BytesState ω) : BytesValues ω := fun x => (s.objects x).map s.content

def Owns (s : BytesState ω) (x : ω) (b : Nat) : Prop :=
  ∃ o, s.objects x = some o ∧ o.data = some b

/-- Every array on the heap is one that an object will delete. -/
def LeakFree (s : BytesState ω) : Prop :=
  ∀ b, s.blocks b ≠ none → ∃ x, s.Owns x b

/-- The sum that `set` checks does not wrap around into the array. -/
def InRange (s : BytesState ω) : BytesLabel ω → Prop
  | .set x source start =>
      ∀ o, s.objects x = some o → 2 ^ 64 ≤ start.toNat + source.bytes.length →
        o.size < start.toNat + source.bytes.length - 2 ^ 64
  | _ => True

/-- An assignment to an object that owns no array. -/
def KeepsArray (s : BytesState ω) : BytesLabel ω → Prop
  | .assign x _ => ∀ o, s.objects x = some o → o.data = none
  | _ => True

instance (s : BytesState ω) (l : BytesLabel ω) : Decidable (s.InRange l) :=
  match l with
  | .set x source start =>
      match h : s.objects x with
      | none => .isTrue (by simp [InRange, h])
      | some o => decidable_of_iff (2 ^ 64 ≤ start.toNat + source.bytes.length →
          o.size < start.toNat + source.bytes.length - 2 ^ 64) (by simp [InRange, h])
  | .empty _ | .ofSize .. | .ofData .. | .move .. | .assign .. | .destroy _ | .deepcopy .. =>
      .isTrue trivial

instance (s : BytesState ω) (l : BytesLabel ω) : Decidable (s.KeepsArray l) :=
  match l with
  | .assign x _ =>
      match h : s.objects x with
      | none => .isTrue (by simp [KeepsArray, h])
      | some o => decidable_of_iff (o.data = none) (by simp [KeepsArray, h])
  | .empty _ | .ofSize .. | .ofData .. | .move .. | .set .. | .destroy _ | .deepcopy .. =>
      .isTrue trivial

variable {s s' : BytesState ω} {x y ano : ω} {o : BytesObject} {l : BytesLabel ω}

/-! ## Owners are unique -/

/-- No pointer dangles, none is shared, and an object knows the size of its array. -/
structure Sound (s : BytesState ω) : Prop where
  live : ∀ x o, s.objects x = some o → ∀ b, o.data = some b → s.blocks b ≠ none
  sized : ∀ x o, s.objects x = some o → (s.content o).size = o.size
  bounded : ∀ x o, s.objects x = some o → o.size < 2 ^ 64
  sole : ∀ x y b, s.Owns x b → s.Owns y b → x = y
  old : ∀ b, s.blocks b ≠ none → b < s.next

theorem sound_init : Sound (machine ω).init := by
  refine ⟨?_, ?_, ?_, ?_, ?_⟩
  · rintro x o ⟨⟩
  · rintro x o ⟨⟩
  · rintro x o ⟨⟩
  · rintro x y b ⟨o, ⟨⟩, -⟩
  · intro b hb
    exact absurd rfl hb

theorem owns_put_self {b : Nat} : (s.put x o).Owns x b ↔ o.data = some b := by
  simp [Owns, put]

theorem owns_put_of_ne {b : Nat} (h : y ≠ x) : (s.put x o).Owns y b ↔ s.Owns y b := by
  simp [Owns, put, h]

theorem owns_transfer {b : Nat} :
    (s.transfer x ano o).Owns y b ↔ y ≠ ano ∧ if y = x then o.data = some b else s.Owns y b := by
  by_cases hano : y = ano
  · subst hano
    simp [transfer, owns_put_self]
  · rw [transfer, owns_put_of_ne hano]
    by_cases hx : y = x
    · subst hx
      simp [owns_put_self, hano]
    · simp [owns_put_of_ne hx, hano, hx]

theorem owns_allocate {b : Nat} {content : List UInt8} :
    (s.allocate x content).Owns y b ↔ if y = x then b = s.next else s.Owns y b := by
  by_cases h : y = x
  · subst h
    simp [Owns, allocate, eq_comm]
  · simp [Owns, allocate, h]

omit [DecidableEq ω] in
/-- An object does not point to an array that is allocated later. -/
theorem Sound.ne_next (hs : s.Sound) {b : Nat} (h : s.Owns y b) : b ≠ s.next := by
  obtain ⟨o, ho, hb⟩ := h
  exact (hs.old b (hs.live y o ho b hb)).ne

/-! ## What an object holds -/

omit [DecidableEq ω] in
theorem content_of_data_ne {b : Nat} {c : Option (List UInt8)} {objects : ω → Option BytesObject}
    {next : Nat} {invalid : Bool} (h : o.data ≠ some b) :
    content ⟨Function.update s.blocks b c, next, objects, invalid⟩ o = s.content o := by
  unfold content
  cases hdata : o.data with
  | none => rfl
  | some b' =>
      have hne : b' ≠ b := fun heq => h (by rw [hdata, heq])
      simp [hne]

theorem values_put : (s.put x ⟨0, none⟩).values = Function.update s.values x (some ⟨[]⟩) := by
  ext1 y
  by_cases h : y = x
  · subst h
    simp [values, put, content]
  · simp only [values, put, Function.update_of_ne h]
    rfl

theorem values_transfer :
    (s.transfer x ano o).values =
      Function.update (Function.update s.values x (some (s.content o))) ano (some ⟨[]⟩) := by
  rw [transfer, values_put]
  congr 1
  ext1 y
  by_cases h : y = x
  · subst h
    simp only [values, put, Function.update_self, Option.map_some]
    rfl
  · simp only [values, put, Function.update_of_ne h]
    rfl

theorem Sound.values_allocate (hs : s.Sound) {content : List UInt8} :
    (s.allocate x content).values = Function.update s.values x (some ⟨content⟩) := by
  ext1 y
  by_cases h : y = x
  · subst h
    simp [values, allocate, BytesState.content]
  · simp only [values, allocate, Function.update_of_ne h]
    cases hy : s.objects y with
    | none => rfl
    | some o =>
        have hne : o.data ≠ some s.next := fun hdata => hs.ne_next ⟨o, hy, hdata⟩ rfl
        simp only [Option.map_some, content_of_data_ne hne]

omit [DecidableEq ω] in
theorem Sound.block (hs : s.Sound) (hx : s.objects x = some o) {b : Nat} (hb : o.data = some b) :
    ∃ content, s.blocks b = some content ∧ s.content o = ⟨content⟩ ∧ content.length = o.size := by
  obtain ⟨content, hcontent⟩ := Option.ne_none_iff_exists'.mp (hs.live x o hx b hb)
  have hvalue : s.content o = ⟨content⟩ := by simp [BytesState.content, hb, hcontent]
  have hsize := hs.sized x o hx
  rw [hvalue] at hsize
  exact ⟨content, hcontent, hvalue, hsize⟩

omit [DecidableEq ω] in
theorem Sound.data_ne_none (hs : s.Sound) (hx : s.objects x = some o) (hpos : 0 < o.size) :
    o.data ≠ none := by
  intro hnone
  have hsize := hs.sized x o hx
  simp only [content, hnone, Bytes.size, Option.bind_none, Option.getD_none,
    List.length_nil] at hsize
  omega

/-- The array that `delete[]` meets is there. -/
theorem Sound.delete_eq (hs : s.Sound) (hx : s.objects x = some o) :
    s.delete x o =
      { s with
        blocks := fun b => if o.data = some b then none else s.blocks b
        objects := Function.update s.objects x none } := by
  cases hdata : o.data with
  | none => simp [delete, hdata]
  | some b =>
      obtain ⟨content, hcontent, -, -⟩ := hs.block hx hdata
      have hblocks : Function.update s.blocks b none =
          fun c => if some b = some c then none else s.blocks c := by
        ext1 c
        simp [Function.update_apply, eq_comm]
      simp [delete, hdata, hcontent, hblocks]

theorem Sound.values_delete (hs : s.Sound) (hx : s.objects x = some o) :
    (s.delete x o).values = Function.update s.values x none := by
  rw [hs.delete_eq hx]
  ext1 y
  by_cases h : y = x
  · subst h
    simp [values]
  · simp only [values, Function.update_of_ne h]
    cases hy : s.objects y with
    | none => rfl
    | some o' =>
        have hother : ∀ b, o'.data = some b → o.data ≠ some b := fun b hb hob =>
          h (hs.sole y x b ⟨o', hy, hb⟩ ⟨o, hx, hob⟩)
        simp only [Option.map_some, content]
        cases hdata : o'.data with
        | none => rfl
        | some b => simp [hother b hdata]

omit [DecidableEq ω] in
/-- A copy into an object changes its own array, within its bounds, or copies nothing. -/
theorem Sound.store_eq (hs : s.Sound) (hx : s.objects x = some o) {source : List UInt8}
    {start : Nat} (hfit : start + source.length ≤ o.size) :
    (source = [] ∧ s.store o source start = s) ∨
    ∃ b content, o.data = some b ∧ s.blocks b = some content ∧ content.length = o.size ∧
      s.store o source start = { s with
        blocks := Function.update s.blocks b
          (some (content.take start ++ source ++ content.drop (start + source.length))) } := by
  cases hdata : o.data with
  | none =>
      have hzero : ¬ 0 < o.size := fun hpos => hs.data_ne_none hx hpos hdata
      have hnil : source = [] := List.eq_nil_of_length_eq_zero (by omega)
      exact Or.inl ⟨hnil, by simp [store, hdata, hnil]⟩
  | some b =>
      obtain ⟨content, hcontent, -, hlen⟩ := hs.block hx hdata
      refine Or.inr ⟨b, content, rfl, hcontent, hlen, ?_⟩
      simp [store, hdata, hcontent, hlen, hfit]

theorem Sound.values_store (hs : s.Sound) (hx : s.objects x = some o) {source : List UInt8}
    {start : Nat} (hfit : start + source.length ≤ o.size) :
    (s.store o source start).values = Function.update s.values x (some
      ⟨(s.content o).data.take start ++ source ++
        (s.content o).data.drop (start + source.length)⟩) := by
  rcases hs.store_eq hx hfit with ⟨rfl, hsame⟩ | ⟨b, content, hdata, hcontent, -, hstore⟩
  · rw [hsame]
    ext1 y
    by_cases h : y = x
    · subst h
      simp [values, hx]
    · simp [h]
  · rw [hstore]
    ext1 y
    by_cases h : y = x
    · subst h
      simp [values, hx, BytesState.content, hdata, hcontent]
    · simp only [values, Function.update_of_ne h]
      cases hy : s.objects y with
      | none => rfl
      | some o' =>
          have hne : o'.data ≠ some b := fun hb => h (hs.sole y x b ⟨o', hy, hb⟩ ⟨o, hx, hdata⟩)
          simp only [Option.map_some, content_of_data_ne hne]

/-! ## The steps of a sound state -/

inductive Effect (s : BytesState ω) : BytesLabel ω → BytesState ω → Prop where
  | empty {x : ω} (hx : s.objects x = none) : Effect s (.empty x) (s.put x ⟨0, none⟩)
  | ofSize {x : ω} {size : BitVec 64} {heap : Nat → UInt8} (hx : s.objects x = none)
      (hpos : 0 < size.toNat) :
      Effect s (.ofSize x size heap) (s.allocate x ((List.range size.toNat).map heap))
  | ofData {x : ω} {source : Source} (hx : s.objects x = none) (hpos : 0 < source.bytes.length) :
      Effect s (.ofData x source) (s.allocate x source.bytes)
  | move {x ano : ω} {o : BytesObject} (hx : s.objects x = none)
      (hano : s.objects ano = some o) : Effect s (.move x ano) (s.transfer x ano o)
  | assign {x ano : ω} {old o : BytesObject} (hx : s.objects x = some old)
      (hano : s.objects ano = some o) : Effect s (.assign x ano) (s.transfer x ano o)
  | destroy {x : ω} {o : BytesObject} (hx : s.objects x = some o) :
      Effect s (.destroy x) (s.delete x o)
  | deepcopy {x y : ω} {o : BytesObject} (hx : s.objects x = none) (hy : s.objects y = some o)
      (hpos : 0 < o.size) : Effect s (.deepcopy x y) (s.allocate x (s.content o).data)
  | refused {x : ω} {source : Source} {start : BitVec 64} {o : BytesObject}
      (hx : s.objects x = some o)
      (hsum : o.size < (start.toNat + source.bytes.length) % 2 ^ 64) :
      Effect s (.set x source start) s
  | copied {x : ω} {source : Source} {start : BitVec 64} {o : BytesObject}
      (hx : s.objects x = some o) (hfit : start.toNat + source.bytes.length ≤ o.size) :
      Effect s (.set x source start) (s.store o source.bytes start.toNat)
  | spoiled {x : ω} {source : Source} {start : BitVec 64} {o : BytesObject}
      (hx : s.objects x = some o) (hwraps : 2 ^ 64 ≤ start.toNat + source.bytes.length)
      (hsum : start.toNat + source.bytes.length - 2 ^ 64 ≤ o.size) :
      Effect s (.set x source start) { s with invalid := true }

omit [DecidableEq ω] in
theorem Sound.load_eq (hs : s.Sound) (hx : s.objects x = some o) (hpos : 0 < o.size) :
    s.load o = some (s.content o).data := by
  obtain ⟨b, hb⟩ := Option.ne_none_iff_exists'.mp (hs.data_ne_none hx hpos)
  obtain ⟨content, hcontent, hvalue, hlen⟩ := hs.block hx hb
  simp [load, hb, hcontent, hvalue, hlen, List.take_of_length_le]

omit [DecidableEq ω] in
/-- A sum that wraps around into the array lets `set` write behind it. -/
theorem Sound.store_outside (hs : s.Sound) (hx : s.objects x = some o) {source : List UInt8}
    {start : Nat} (hstart : start < 2 ^ 64) (hwraps : 2 ^ 64 ≤ start + source.length) :
    s.store o source start = { s with invalid := true } := by
  have hbound := hs.bounded x o hx
  have hsource : source ≠ [] := by
    rintro rfl
    simp at hwraps
    omega
  cases hdata : o.data with
  | none => simp [store, hdata, hsource]
  | some b =>
      obtain ⟨content, hcontent, -, hlen⟩ := hs.block hx hdata
      have hout : ¬ start + source.length ≤ content.length := by omega
      simp [store, hdata, hcontent, hout]

theorem Sound.set_effect (hs : s.Sound) {source : Source} {start : BitVec 64}
    (hx : s.objects x = some o) :
    s.Effect (.set x source start)
      (if (start.toNat + source.bytes.length) % 2 ^ 64 > o.size then s
        else s.store o source.bytes start.toNat) := by
  have hstart := start.isLt
  have hsource := source.bounded
  split
  case isTrue hsum => exact .refused hx hsum
  case isFalse hsum =>
    rcases Nat.lt_or_ge (start.toNat + source.bytes.length) (2 ^ 64) with hlt | hge
    · rw [Nat.mod_eq_of_lt hlt] at hsum
      exact .copied hx (by omega)
    · rw [hs.store_outside hx hstart hge]
      rw [Nat.mod_eq_sub_mod hge, Nat.mod_eq_of_lt (by omega)] at hsum
      exact .spoiled hx hge (by omega)

theorem Sound.step_effect (hs : s.Sound) (h : s.step l = some s') :
    s.invalid = false ∧ s.Effect l s' := by
  unfold step at h
  split at h
  case isTrue => cases h
  case isFalse hvalid =>
    refine ⟨by simpa using hvalid, ?_⟩
    cases l with
    | empty x =>
        obtain ⟨hx, h⟩ := Option.ite_none_right_eq_some.mp h
        exact Option.some.inj h ▸ .empty hx
    | ofSize x size heap =>
        obtain ⟨⟨hx, hpos⟩, h⟩ := Option.ite_none_right_eq_some.mp h
        exact Option.some.inj h ▸ .ofSize hx hpos
    | ofData x source =>
        obtain ⟨⟨hx, hpos⟩, h⟩ := Option.ite_none_right_eq_some.mp h
        exact Option.some.inj h ▸ .ofData hx hpos
    | move x ano =>
        dsimp only at h
        split at h
        case h_1 hx hano => exact Option.some.inj h ▸ .move hx hano
        case h_2 => cases h
    | assign x ano =>
        dsimp only at h
        split at h
        case h_1 hx hano => exact Option.some.inj h ▸ .assign hx hano
        case h_2 => cases h
    | destroy x =>
        dsimp only at h
        split at h
        case h_1 => cases h
        case h_2 hx => exact Option.some.inj h ▸ .destroy hx
    | deepcopy x y =>
        dsimp only at h
        split at h
        case h_1 hx hy =>
          obtain ⟨⟨hpos, -⟩, h⟩ := Option.ite_none_right_eq_some.mp h
          rw [hs.load_eq hy hpos] at h
          exact Option.some.inj h ▸ .deepcopy hx hy hpos
        case h_2 => cases h
    | set x source start =>
        dsimp only at h
        split at h
        case h_1 => cases h
        case h_2 hx =>
          rw [← apply_ite some] at h
          exact Option.some.inj h ▸ hs.set_effect hx

/-! ## What the steps keep -/

theorem Sound.putEmpty (hs : s.Sound) : (s.put x ⟨0, none⟩).Sound := by
  refine ⟨?_, ?_, ?_, ?_, hs.old⟩
  · intro y o hy b hb
    by_cases h : y = x
    · subst h
      obtain rfl : _ = o := by simpa [put] using hy
      cases hb
    · exact hs.live y o (by simpa [put, h] using hy) b hb
  · intro y o hy
    by_cases h : y = x
    · subst h
      obtain rfl : _ = o := by simpa [put] using hy
      rfl
    · exact hs.sized y o (by simpa [put, h] using hy)
  · intro y o hy
    by_cases h : y = x
    · subst h
      obtain rfl : _ = o := by simpa [put] using hy
      exact Nat.two_pow_pos 64
    · exact hs.bounded y o (by simpa [put, h] using hy)
  · intro y z b hy hz
    have hne : ∀ w, (s.put x ⟨0, none⟩).Owns w b → s.Owns w b := by
      intro w hw
      by_cases h : w = x
      · subst h
        cases owns_put_self.mp hw
      · exact (owns_put_of_ne h).mp hw
    exact hs.sole y z b (hne y hy) (hne z hz)

/-- The fields of an object after `ano` was moved to `x` are those of an object before it. -/
theorem objects_transfer {o' : BytesObject} (hano : s.objects ano = some o)
    (hy : (s.transfer x ano o).objects y = some o') :
    o' = ⟨0, none⟩ ∨ ∃ z, s.objects z = some o' := by
  by_cases h : y = ano
  · subst h
    obtain rfl : _ = o' := by simpa [transfer, put] using hy
    exact Or.inl rfl
  · by_cases hx : y = x
    · subst hx
      obtain rfl : o = o' := by simpa [transfer, put, h] using hy
      exact Or.inr ⟨ano, hano⟩
    · exact Or.inr ⟨y, by simpa [transfer, put, h, hx] using hy⟩

theorem Sound.transfer (hs : s.Sound) (hano : s.objects ano = some o) :
    (s.transfer x ano o).Sound := by
  refine ⟨?_, ?_, ?_, ?_, hs.old⟩
  · intro y o' hy b hb
    rcases objects_transfer hano hy with rfl | ⟨z, hz⟩
    · cases hb
    · exact hs.live z o' hz b hb
  · intro y o' hy
    rcases objects_transfer hano hy with rfl | ⟨z, hz⟩
    · rfl
    · exact hs.sized z o' hz
  · intro y o' hy
    rcases objects_transfer hano hy with rfl | ⟨z, hz⟩
    · exact Nat.two_pow_pos 64
    · exact hs.bounded z o' hz
  · intro y z b hy hz
    obtain ⟨hyano, hy⟩ := owns_transfer.mp hy
    obtain ⟨hzano, hz⟩ := owns_transfer.mp hz
    split at hy <;> split at hz
    case isTrue.isTrue hyx hzx => rw [hyx, hzx]
    case isTrue.isFalse => exact absurd (hs.sole z ano b hz ⟨o, hano, hy⟩) hzano
    case isFalse.isTrue => exact absurd (hs.sole y ano b hy ⟨o, hano, hz⟩) hyano
    case isFalse.isFalse => exact hs.sole y z b hy hz

theorem Sound.allocate (hs : s.Sound) {content : List UInt8} (hlen : content.length < 2 ^ 64) :
    (s.allocate x content).Sound := by
  have hcases : ∀ y o, (s.allocate x content).objects y = some o →
      o = ⟨content.length, some s.next⟩ ∨ s.objects y = some o := by
    intro y o hy
    by_cases h : y = x
    · subst h
      left
      simpa [BytesState.allocate, eq_comm] using hy
    · right
      simpa [BytesState.allocate, h] using hy
  refine ⟨?_, ?_, ?_, ?_, ?_⟩
  · intro y o hy b hb
    simp only [BytesState.allocate, Function.update_apply]
    split
    case isTrue => simp
    case isFalse hne =>
      rcases hcases y o hy with rfl | hy
      · exact absurd (Option.some.inj hb).symm hne
      · exact hs.live y o hy b hb
  · intro y o hy
    rcases hcases y o hy with rfl | hy
    · simp [BytesState.allocate, BytesState.content, Bytes.size]
    · have hne : o.data ≠ some s.next := fun hdata => hs.ne_next ⟨o, hy, hdata⟩ rfl
      rw [BytesState.allocate, content_of_data_ne hne]
      exact hs.sized y o hy
  · intro y o hy
    rcases hcases y o hy with rfl | hy
    · exact hlen
    · exact hs.bounded y o hy
  · intro y z b hy hz
    rw [owns_allocate] at hy hz
    split at hy <;> split at hz
    case isTrue.isTrue hyx hzx => rw [hyx, hzx]
    case isTrue.isFalse => exact absurd hy (hs.ne_next hz)
    case isFalse.isTrue => exact absurd hz (hs.ne_next hy)
    case isFalse.isFalse => exact hs.sole y z b hy hz
  · intro b hb
    simp only [BytesState.allocate, Function.update_apply] at hb ⊢
    split at hb
    case isTrue heq => omega
    case isFalse => exact (hs.old b hb).trans (Nat.lt_succ_self _)

theorem Sound.delete (hs : s.Sound) (hx : s.objects x = some o) : (s.delete x o).Sound := by
  rw [hs.delete_eq hx]
  have hcases : ∀ y o', Function.update s.objects x none y = some o' →
      y ≠ x ∧ s.objects y = some o' := by
    intro y o' hy
    by_cases h : y = x
    · subst h
      simp at hy
    · exact ⟨h, by simpa [h] using hy⟩
  have hother : ∀ y o', y ≠ x → s.objects y = some o' → ∀ b, o'.data = some b →
      o.data ≠ some b := fun y o' hne hy b hb hob =>
    hne (hs.sole y x b ⟨o', hy, hb⟩ ⟨o, hx, hob⟩)
  refine ⟨?_, ?_, ?_, ?_, ?_⟩
  · intro y o' hy b hb
    obtain ⟨hne, hy⟩ := hcases y o' hy
    simp only [hother y o' hne hy b hb, if_false]
    exact hs.live y o' hy b hb
  · intro y o' hy
    obtain ⟨hne, hy⟩ := hcases y o' hy
    have hsize := hs.sized y o' hy
    unfold content at hsize ⊢
    cases hdata : o'.data with
    | none => simpa [hdata] using hsize
    | some b => simpa [hdata, hother y o' hne hy b hdata] using hsize
  · intro y o' hy
    exact hs.bounded y o' (hcases y o' hy).2
  · rintro y z b ⟨o₁, hy, hb₁⟩ ⟨o₂, hz, hb₂⟩
    exact hs.sole y z b ⟨o₁, (hcases y o₁ hy).2, hb₁⟩ ⟨o₂, (hcases z o₂ hz).2, hb₂⟩
  · intro b hb
    dsimp only at hb
    split at hb
    case isTrue => exact absurd rfl hb
    case isFalse => exact hs.old b hb

omit [DecidableEq ω] in
theorem Sound.store (hs : s.Sound) (hx : s.objects x = some o) {source : List UInt8}
    {start : Nat} (hfit : start + source.length ≤ o.size) :
    (s.store o source start).Sound := by
  rcases hs.store_eq hx hfit with ⟨-, hsame⟩ | ⟨b, content, hdata, hcontent, hlen, hstore⟩
  · rw [hsame]
    exact hs
  · rw [hstore]
    refine ⟨?_, ?_, hs.bounded, hs.sole, ?_⟩
    · intro y o' hy b' hb'
      simp only [Function.update_apply]
      split
      case isTrue => simp
      case isFalse => exact hs.live y o' hy b' hb'
    · intro y o' hy
      by_cases h : o'.data = some b
      · -- the owner of the array is `x`
        obtain rfl := hs.sole y x b ⟨o', hy, h⟩ ⟨o, hx, hdata⟩
        obtain rfl : o = o' := Option.some.inj (hx.symm.trans hy)
        simp [BytesState.content, h, Bytes.size]
        omega
      · rw [content_of_data_ne h]
        exact hs.sized y o' hy
    · intro b' hb'
      simp only [Function.update_apply] at hb'
      split at hb'
      case isTrue heq =>
        apply hs.old
        rw [heq, hcontent]
        exact Option.some_ne_none _
      case isFalse => exact hs.old b' hb'

theorem Effect.sound (hs : s.Sound) (h : s.Effect l s') : s'.Sound := by
  cases h with
  | empty hx => exact hs.putEmpty
  | @ofSize x size heap hx hpos => exact hs.allocate (by simpa using size.isLt)
  | @ofData x source hx hpos => exact hs.allocate source.bounded
  | move hx hano => exact hs.transfer hano
  | assign hx hano => exact hs.transfer hano
  | destroy hx => exact hs.delete hx
  | deepcopy hx hy hpos =>
      apply hs.allocate
      exact (hs.sized _ _ hy).trans_lt (hs.bounded _ _ hy)
  | refused hx hsum => exact hs
  | copied hx hfit => exact hs.store hx hfit
  | spoiled hx hwraps hsum => exact ⟨hs.live, hs.sized, hs.bounded, hs.sole, hs.old⟩

theorem Effect.invalid_iff (hs : s.Sound) (hvalid : s.invalid = false) (h : s.Effect l s') :
    s'.invalid = false ↔ s.InRange l := by
  cases h with
  | empty hx => exact iff_of_true hvalid trivial
  | ofSize hx hpos => exact iff_of_true hvalid trivial
  | ofData hx hpos => exact iff_of_true hvalid trivial
  | move hx hano => exact iff_of_true hvalid trivial
  | assign hx hano => exact iff_of_true hvalid trivial
  | destroy hx =>
      rw [hs.delete_eq hx]
      exact iff_of_true hvalid trivial
  | deepcopy hx hy hpos => exact iff_of_true hvalid trivial
  | @refused x source start o hx hsum =>
      refine iff_of_true hvalid ?_
      intro o' hx' hwraps
      obtain rfl : o = o' := Option.some.inj (hx.symm.trans hx')
      have hstart := start.isLt
      have hsource := source.bounded
      rwa [Nat.mod_eq_sub_mod hwraps, Nat.mod_eq_of_lt (by omega)] at hsum
  | @copied x source start o hx hfit =>
      have hbound := hs.bounded x o hx
      refine iff_of_true ?_ ?_
      · rcases hs.store_eq hx hfit with ⟨-, hsame⟩ | ⟨b, content, -, -, -, hstore⟩
        · rwa [hsame]
        · rw [hstore]
          exact hvalid
      · intro o' hx' hwraps
        obtain rfl : o = o' := Option.some.inj (hx.symm.trans hx')
        omega
  | spoiled hx hwraps hsum =>
      refine iff_of_false (fun h => by cases h) ?_
      intro hrange
      have := hrange _ hx hwraps
      omega

theorem Effect.values (hs : s.Sound) (h : s.Effect l s') (hvalid : s'.invalid = false) :
    s.values.step l = some s'.values := by
  have hvalue : ∀ {x o}, s.objects x = some o → s.values x = some (s.content o) := by
    intro x o hx
    simp [BytesState.values, hx]
  have hnone : ∀ {x}, s.objects x = none → s.values x = none := by
    intro x hx
    simp [BytesState.values, hx]
  cases h with
  | empty hx => rw [values_put, BytesValues.step, if_pos (hnone hx)]
  | ofSize hx hpos =>
      rw [hs.values_allocate, BytesValues.step, if_pos (hnone hx), Bytes.alloc, if_pos hpos]
      rfl
  | ofData hx hpos =>
      rw [hs.values_allocate, BytesValues.step,
        if_pos ⟨hnone hx, List.ne_nil_of_length_pos hpos⟩]
  | move hx hano =>
      rw [values_transfer, BytesValues.step, hnone hx, hvalue hano]
  | assign hx hano =>
      rw [values_transfer, BytesValues.step, hvalue hx, hvalue hano]
  | destroy hx =>
      rw [hs.values_delete hx, BytesValues.step, hvalue hx]
      rfl
  | @deepcopy x y o hx hy hpos =>
      have hne : ¬ (s.content o).data = [] := by
        apply List.ne_nil_of_length_pos
        exact hpos.trans_eq (hs.sized y o hy).symm
      rw [hs.values_allocate, BytesValues.step, hnone hx, hvalue hy]
      simp only [hne, if_false]
  | refused hx hsum =>
      rw [BytesValues.step, hvalue hx]
      dsimp only
      rw [Bytes.set, if_pos (by rwa [hs.sized _ _ hx])]
  | copied hx hfit =>
      have hbound := hs.bounded _ _ hx
      rw [hs.values_store hx hfit, BytesValues.step, hvalue hx]
      dsimp only
      rw [Bytes.set, if_neg]
      rw [hs.sized _ _ hx, Nat.mod_eq_of_lt (by omega)]
      omega
  | spoiled hx hwraps hsum => cases hvalid

theorem sound_runs {ls : List (BytesLabel ω)} (hrun : (machine ω).Runs ls s) : s.Sound :=
  hrun.invariant (I := Sound) sound_init fun _ _ _ hs hstep => (hs.step_effect hstep).2.sound hs

/-! ## Arrays without an owner -/

def Lost (s : BytesState ω) (b : Nat) : Prop := s.blocks b ≠ none ∧ ∀ x, ¬ s.Owns x b

omit [DecidableEq ω] in
theorem leakFree_iff : s.LeakFree ↔ ∀ b, ¬ s.Lost b := by
  simp [LeakFree, Lost]

omit [DecidableEq ω] in
theorem Owns.objects_ne_none {b : Nat} (h : s.Owns x b) : s.objects x ≠ none := by
  obtain ⟨o, hx, -⟩ := h
  rw [hx]
  exact Option.some_ne_none o

omit [DecidableEq ω] in
/-- A copy into an array neither makes one nor deletes one. -/
theorem Sound.blocks_store (hs : s.Sound) (hx : s.objects x = some o) {source : List UInt8}
    {start : Nat} (hfit : start + source.length ≤ o.size) (b : Nat) :
    (s.store o source start).blocks b = none ↔ s.blocks b = none := by
  rcases hs.store_eq hx hfit with ⟨-, hsame⟩ | ⟨b', content, -, hcontent, -, hstore⟩
  · rw [hsame]
  · rw [hstore]
    by_cases h : b = b'
    · subst h
      simp [hcontent]
    · simp [h]

omit [DecidableEq ω] in
theorem Sound.owns_store (hs : s.Sound) (hx : s.objects x = some o) {source : List UInt8}
    {start : Nat} (hfit : start + source.length ≤ o.size) {b : Nat} :
    (s.store o source start).Owns y b ↔ s.Owns y b := by
  rcases hs.store_eq hx hfit with ⟨-, hsame⟩ | ⟨b', content, -, -, -, hstore⟩
  · rw [hsame]
  · rw [hstore]
    rfl

theorem Sound.owns_delete (hs : s.Sound) (hx : s.objects x = some o) {b : Nat} :
    (s.delete x o).Owns y b ↔ y ≠ x ∧ s.Owns y b := by
  rw [hs.delete_eq hx]
  by_cases h : y = x
  · subst h
    simp [Owns]
  · simp [Owns, h]

theorem Sound.blocks_delete (hs : s.Sound) (hx : s.objects x = some o) {b : Nat} :
    (s.delete x o).blocks b ≠ none ↔ s.blocks b ≠ none ∧ ¬ s.Owns x b := by
  rw [hs.delete_eq hx]
  simp only [Owns, hx, Option.some.injEq, exists_eq_left']
  split
  case isTrue h => simp [h]
  case isFalse h => simp [h]

theorem Lost.transfer {b : Nat} (hb : s.Lost b) (hano : s.objects ano = some o) :
    (s.transfer x ano o).Lost b := by
  refine ⟨hb.1, fun y hy => ?_⟩
  obtain ⟨-, hy⟩ := owns_transfer.mp hy
  split at hy
  case isTrue => exact hb.2 ano ⟨o, hano, hy⟩
  case isFalse => exact hb.2 y hy

theorem Lost.allocate (hs : s.Sound) {b : Nat} (hb : s.Lost b) {content : List UInt8} :
    (s.allocate x content).Lost b := by
  have hne : b ≠ s.next := (hs.old b hb.1).ne
  refine ⟨?_, fun y hy => ?_⟩
  · simpa [BytesState.allocate, hne] using hb.1
  · rw [owns_allocate] at hy
    split at hy
    case isTrue => exact hne hy
    case isFalse => exact hb.2 y hy

/-- No step finds a lost array again. -/
theorem Effect.lost (hs : s.Sound) (h : s.Effect l s') {b : Nat} (hb : s.Lost b) :
    s'.Lost b := by
  cases h with
  | @empty x hx =>
      refine ⟨hb.1, fun y hy => ?_⟩
      by_cases h : y = x
      · subst h
        cases owns_put_self.mp hy
      · exact hb.2 y ((owns_put_of_ne h).mp hy)
  | ofSize hx hpos => exact hb.allocate hs
  | ofData hx hpos => exact hb.allocate hs
  | move hx hano => exact hb.transfer hano
  | assign hx hano => exact hb.transfer hano
  | destroy hx =>
      refine ⟨(hs.blocks_delete hx).mpr ⟨hb.1, hb.2 _⟩, fun y hy => ?_⟩
      exact hb.2 y ((hs.owns_delete hx).mp hy).2
  | deepcopy hx hy hpos => exact hb.allocate hs
  | refused hx hsum => exact hb
  | copied hx hfit =>
      refine ⟨fun hnone => hb.1 ((hs.blocks_store hx hfit b).mp hnone), fun y hy => ?_⟩
      exact hb.2 y ((hs.owns_store hx hfit).mp hy)
  | spoiled hx hwraps hsum => exact hb

theorem LeakFree.transfer (hfree : s.LeakFree) (hano : s.objects ano = some o)
    (hx : ∀ b, ¬ s.Owns x b) : (s.transfer x ano o).LeakFree := by
  intro b hb
  obtain ⟨y, hy⟩ := hfree b hb
  have hyx : y ≠ x := by
    rintro rfl
    exact hx b hy
  by_cases h : y = ano
  · -- the array goes to `x`
    subst h
    obtain ⟨o', hy, hdata⟩ := hy
    obtain rfl : o = o' := Option.some.inj (hano.symm.trans hy)
    refine ⟨x, owns_transfer.mpr ⟨Ne.symm hyx, ?_⟩⟩
    rwa [if_pos rfl]
  · refine ⟨y, owns_transfer.mpr ⟨h, ?_⟩⟩
    rwa [if_neg hyx]

theorem LeakFree.allocate (hfree : s.LeakFree) (hx : s.objects x = none) {content : List UInt8} :
    (s.allocate x content).LeakFree := by
  intro b hb
  by_cases h : b = s.next
  · exact ⟨x, owns_allocate.mpr (by rwa [if_pos rfl])⟩
  · obtain ⟨y, hy⟩ := hfree b (by simpa [BytesState.allocate, h] using hb)
    refine ⟨y, owns_allocate.mpr ?_⟩
    rwa [if_neg fun heq : y = x => hy.objects_ne_none (heq ▸ hx)]

theorem Effect.leakFree (hs : s.Sound) (h : s.Effect l s') (hfree : s.LeakFree)
    (hkeeps : s.KeepsArray l) : s'.LeakFree := by
  cases h with
  | @empty x hx =>
      intro b hb
      obtain ⟨y, hy⟩ := hfree b hb
      have hne : y ≠ x := fun heq => hy.objects_ne_none (heq ▸ hx)
      exact ⟨y, (owns_put_of_ne hne).mpr hy⟩
  | ofSize hx hpos => exact hfree.allocate hx
  | ofData hx hpos => exact hfree.allocate hx
  | move hx hano => exact hfree.transfer hano fun b hb => hb.objects_ne_none hx
  | assign hx hano =>
      apply hfree.transfer hano
      rintro b ⟨o', hx', hdata⟩
      rw [hkeeps o' hx'] at hdata
      cases hdata
  | destroy hx =>
      intro b hb
      obtain ⟨hb, hnot⟩ := (hs.blocks_delete hx).mp hb
      obtain ⟨y, hy⟩ := hfree b hb
      refine ⟨y, (hs.owns_delete hx).mpr ⟨?_, hy⟩⟩
      rintro rfl
      exact hnot hy
  | deepcopy hx hy hpos => exact hfree.allocate hx
  | refused hx hsum => exact hfree
  | copied hx hfit =>
      intro b hb
      obtain ⟨y, hy⟩ := hfree b fun hnone => hb ((hs.blocks_store hx hfit b).mpr hnone)
      exact ⟨y, (hs.owns_store hx hfit).mpr hy⟩
  | spoiled hx hwraps hsum => exact hfree

/-- What an assignment replaces is lost, also where an object is assigned to itself. -/
theorem Effect.lost_of_breach (hs : s.Sound) (h : s.Effect l s') (hbreach : ¬ s.KeepsArray l) :
    ∃ b, s'.Lost b := by
  cases h with
  | @assign x ano old o hx hano =>
      obtain ⟨b, hdata⟩ : ∃ b, old.data = some b := by
        rw [← Option.ne_none_iff_exists']
        intro hnone
        apply hbreach
        intro o' hx'
        rwa [← Option.some.inj (hx.symm.trans hx')]
      have howner : s.Owns x b := ⟨old, hx, hdata⟩
      refine ⟨b, hs.live x old hx b hdata, fun y hy => ?_⟩
      obtain ⟨hne, hy⟩ := owns_transfer.mp hy
      split at hy
      case isTrue hyx => exact hne (hyx.trans (hs.sole x ano b howner ⟨o, hano, hy⟩))
      case isFalse hyx => exact hyx (hs.sole y x b hy howner)
  | _ => exact absurd trivial hbreach

theorem leakFree_iff_meets {ls : List (BytesLabel ω)} (hrun : (machine ω).Runs ls s) :
    s.LeakFree ↔ (machine ω).Meets KeepsArray (machine ω).init ls := by
  have hinit : (machine ω).init.LeakFree := fun b hb => absurd rfl hb
  constructor
  · intro hfree
    by_contra hbreach
    obtain ⟨pre, l, post, t, t', rfl, ht, -, hl, hstep, hrest⟩ := hrun.exists_breach hbreach
    have hsound := sound_runs ht
    have heffect := (hsound.step_effect hstep).2
    obtain ⟨b, hb⟩ := heffect.lost_of_breach hsound hl
    have hlost : s.Sound ∧ s.Lost b := by
      refine Machine.runFrom_invariant (I := fun s => s.Sound ∧ s.Lost b) ?_
        ⟨heffect.sound hsound, hb⟩ hrest
      rintro a e a' ⟨ha, hlost⟩ ha'
      have hstep := (ha.step_effect ha').2
      exact ⟨hstep.sound ha, hstep.lost ha hlost⟩
    exact leakFree_iff.mp hfree b hlost.2
  · intro hmeets
    have hkept : s.Sound ∧ s.LeakFree := by
      refine hrun.guarded (I := fun s => s.Sound ∧ s.LeakFree) ⟨sound_init, hinit⟩ ?_ hmeets
      rintro a e a' ⟨ha, hfree⟩ he ha'
      have hstep := (ha.step_effect ha').2
      exact ⟨hstep.sound ha, hstep.leakFree ha hfree he⟩
    exact hkept.2

/-- An array is on the heap as long as an object owns it, along a run in which no assignment
replaces one and in no other; at the end of a run that destroys all of its objects nothing is left
under the same condition only. -/
theorem leak_free_iff {ls : List (BytesLabel ω)} (hrun : (machine ω).Runs ls s) :
    (s.LeakFree ↔ (machine ω).Meets KeepsArray (machine ω).init ls) ∧
    ((∀ x, s.objects x = none) →
      ((∀ b, s.blocks b = none) ↔ (machine ω).Meets KeepsArray (machine ω).init ls)) := by
  refine ⟨leakFree_iff_meets hrun, fun hgone => ?_⟩
  rw [← leakFree_iff_meets hrun]
  constructor
  · intro hnone b hb
    exact absurd (hnone b) hb
  · intro hfree b
    by_contra hb
    obtain ⟨x, hx⟩ := hfree b hb
    exact hx.objects_ne_none (hgone x)

/-! ## The machine of values -/

theorem valid_iff_meets {ls : List (BytesLabel ω)} (hrun : (machine ω).Runs ls s) :
    s.invalid = false ↔ (machine ω).Meets InRange (machine ω).init ls := by
  refine Machine.Runs.induction (M := machine ω)
    (P := fun ls s => s.invalid = false ↔ (machine ω).Meets InRange (machine ω).init ls)
    (iff_of_true rfl trivial) ?_ hrun
  intro ls s l s' hrun ih hstep
  have hsound := sound_runs hrun
  obtain ⟨hvalid, heffect⟩ := hsound.step_effect hstep
  rw [Machine.meets_snoc hrun, heffect.invalid_iff hsound hvalid]
  exact ⟨fun hl => ⟨ih.mp hvalid, hl⟩, And.right⟩

theorem values_runs {ls : List (BytesLabel ω)} (hrun : (machine ω).Runs ls s)
    (hvalid : s.invalid = false) : (BytesValues.machine ω).Runs ls s.values := by
  revert hvalid
  refine Machine.Runs.induction (M := machine ω)
    (P := fun ls s => s.invalid = false → (BytesValues.machine ω).Runs ls s.values)
    (fun _ => rfl) ?_ hrun
  intro ls s l s' hrun ih hstep hvalid
  have hsound := sound_runs hrun
  obtain ⟨hbefore, heffect⟩ := hsound.step_effect hstep
  exact Machine.runs_snoc.mpr ⟨s.values, ih hbefore, heffect.values hsound hvalid⟩

/-- No array is deleted twice, read or written after its deletion or beyond its end, as long as no
sum in `set` wraps around into the array, and in no other case. Up to there the objects are
independent values: moved and copied bytes are the bytes of the source, and a `set` in one object
changes no other. -/
theorem value_semantics {ls : List (BytesLabel ω)} (hrun : (machine ω).Runs ls s) :
    (s.invalid = false ↔ (machine ω).Meets InRange (machine ω).init ls) ∧
    (s.invalid = false → (BytesValues.machine ω).Runs ls s.values) := by
  exact ⟨valid_iff_meets hrun, values_runs hrun⟩

/-- A message of three bytes becomes the argument of a call, which reads a copy of it. -/
def passed : List (BytesLabel Nat) :=
  [.ofData 0 ⟨[1, 2, 3], by decide⟩, .move 1 0, .deepcopy 2 1, .set 1 ⟨[9], by decide⟩ 2,
    .destroy 1, .set 2 ⟨[7], by decide⟩ 3, .destroy 0]

theorem value_semantics_run :
    ∃ s : BytesState Nat, (machine Nat).Runs passed s ∧ s.invalid = false ∧
      (BytesValues.machine Nat).Runs passed s.values ∧ s.values 2 = some ⟨[1, 2, 3]⟩ := by
  obtain ⟨s, hrun, hcopy⟩ : ∃ s : BytesState Nat, (machine Nat).Runs passed s ∧
      s.values 2 = some ⟨[1, 2, 3]⟩ := ⟨_, rfl, rfl⟩
  have hvalid : s.invalid = false := (value_semantics hrun).1.mpr (by decide)
  exact ⟨s, hrun, hvalid, (value_semantics hrun).2 hvalid, hcopy⟩

theorem leak_free_iff_run :
    ∃ s : BytesState Nat, (machine Nat).Runs (passed ++ [.destroy 2]) s ∧ s.LeakFree ∧
      ∀ b, s.blocks b = none := by
  obtain ⟨s, hrun, hgone⟩ : ∃ s : BytesState Nat, (machine Nat).Runs (passed ++ [.destroy 2]) s ∧
      ∀ x, s.objects x = none := by
    refine ⟨_, rfl, ?_⟩
    rintro (_ | _ | _ | x) <;> rfl
  have hmeets : (machine Nat).Meets KeepsArray (machine Nat).init (passed ++ [.destroy 2]) := by
    decide
  exact ⟨s, hrun, (leak_free_iff hrun).1.mpr hmeets, ((leak_free_iff hrun).2 hgone).mpr hmeets⟩

/-- The second message is assigned to the first one: the array of the first stays. -/
example : ∃ s : BytesState Nat, (machine Nat).Runs [.ofData 0 ⟨[1], by decide⟩,
    .ofData 1 ⟨[2], by decide⟩, .assign 0 1, .destroy 0, .destroy 1] s ∧
    s.blocks 0 = some [1] ∧ s.objects 0 = none ∧ s.objects 1 = none :=
  ⟨_, rfl, rfl, rfl, rfl⟩

end BytesState

end Npp.Basic
