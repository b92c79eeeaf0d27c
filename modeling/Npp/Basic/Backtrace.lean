import Npp.Foundation.CString

/-!
# The lines of a backtrace

`backtrace_symbols` gives lines such as `path(symbol+offset) [address]`. `parseStrings` cuts one in
place: it puts a terminator over each bracket and each plus, and keeps where the text behind them
begins. `CalculateOffset` goes on with what it has found. The functions of the loader are
parameters, and what is written to `stderr` is left out.
-/

namespace Npp.Basic

open Npp.Foundation CString

def openingBracket : UInt8 := 0x28

def closingBracket : UInt8 := 0x29

def plusSign : UInt8 := 0x2B

def separates (c : UInt8) : Bool := c = openingBracket || c = plusSign || c = closingBracket

/-- The line in memory and the pointers into it; nothing was assigned to those that are `none`. -/
structure Parsed where
  memory : List UInt8
  execFile : Option Nat := none
  symbolString : Option Nat := none
  offsetString : Option Nat := none
deriving DecidableEq, Repr

namespace Parsed

def denotes (r : Parsed) (p : Option Nat) : Option (List UInt8) := p.bind (cString 0 r.memory)

end Parsed

inductive ParseResult where
  | done (r : Parsed)
  | outOfBounds
  | outOfFuel
deriving DecidableEq, Repr

def parseLoop : (fuel : Nat) → Parsed → (iteratorPointer : Nat) → ParseResult
  | 0, _, _ => .outOfFuel
  | fuel + 1, r, i =>
      match r.memory[i]? with
      | none => .outOfBounds
      | some c =>
          if c = 0 then .done r
          else if c = openingBracket then
            parseLoop fuel
              { r with symbolString := some (i + 1), memory := r.memory.set i 0 } (i + 1)
          else if c = plusSign then
            parseLoop fuel
              { r with offsetString := some (i + 1), memory := r.memory.set i 0 } (i + 1)
          else if c = closingBracket then
            parseLoop fuel { r with memory := r.memory.set i 0 } (i + 1)
          else parseLoop fuel r (i + 1)

def parseStrings (fuel : Nat) (stackFrameString : List UInt8) : ParseResult :=
  parseLoop fuel { memory := stackFrameString, execFile := some 0 } 0

inductive Scanned where
  | eof
  | mismatch
  | pointer (p : UInt64)
deriving DecidableEq, Repr

/-- The functions of the C library and of the loader: `dlsym` gives an address, and `dladdr` the
addresses of the symbol and of its file. The last two tell whether `dlerror` has a text after it. -/
structure Loader where
  sscanf : List UInt8 → Scanned
  dlsym : List UInt8 → UInt64
  dladdr : UInt64 → Option (UInt64 × UInt64)
  dlsymError : List UInt8 → Bool
  dladdrError : UInt64 → Bool

/-- How `CalculateOffset` goes wrong: it uses a pointer that was not assigned, or takes the length
of a text that `dlerror` does not have. -/
inductive OffsetFault where
  | symbolString
  | offsetString
  | dlErrorSting
  | outOfBounds
  | outOfFuel
deriving DecidableEq, Repr

def readString (r : Parsed) (p : Option Nat) (unassigned : OffsetFault) :
    Except OffsetFault (List UInt8) :=
  match p with
  | none => .error unassigned
  | some p =>
      match cString 0 r.memory p with
      | none => .error .outOfBounds
      | some text => .ok text

/-- The branch of `CalculateOffset` for a symbol; `dlopen` of the program itself does not fail. -/
def symbolOffset (ld : Loader) (symbolText : List UInt8) (offset : UInt64) :
    Except OffsetFault UInt64 :=
  if symbolText = [] then .ok offset
  else
    let address := ld.dlsym symbolText
    if address = 0 ∧ ld.dlsymError symbolText = false then .error .dlErrorSting
    else
      match ld.dladdr address with
      | some (saddr, fbase) => .ok ((saddr - fbase) + offset)
      | none => if ld.dladdrError address then .ok offset else .error .dlErrorSting

/-- `CalculateOffset`, which returns the offset, and `execFile` in `*execFile`. -/
def calculateOffset (ld : Loader) (fuel : Nat) (stackFrameString : List UInt8) :
    Except OffsetFault (UInt64 × Parsed) :=
  match parseStrings fuel stackFrameString with
  | .outOfBounds => .error .outOfBounds
  | .outOfFuel => .error .outOfFuel
  | .done r => do
      let offsetText ← readString r r.offsetString .offsetString
      let checkSscanf := ld.sscanf offsetText
      let offset :=
        match checkSscanf with
        | .pointer p => p
        | _ => 0
      let symbolText ← readString r r.symbolString .symbolString
      let offset ← symbolOffset ld symbolText offset
      return (if checkSscanf = .eof then 0 else offset, r)

/-! ## The lines -/

/-- A text without a terminator, as it lies in memory in front of something else. -/
structure Line where
  text : List UInt8
  nul : 0 ∉ text
  beyond : List UInt8 := []

namespace Line

def memory (line : Line) : List UInt8 := line.text ++ 0 :: line.beyond

end Line

/-- No terminator, and nothing that separates. -/
def Plain (text : List UInt8) : Prop := ∀ c ∈ text, c ≠ 0 ∧ separates c = false

instance (text : List UInt8) : Decidable (Plain text) := List.decidableBAll _ text

structure StackFrame where
  execPath : List UInt8
  symbol : List UInt8
  offset : List UInt8
  address : List UInt8
  execPath_ne : execPath ≠ []
  execPath_nul : 0 ∉ execPath
  symbol_plain : Plain symbol
  offset_plain : Plain offset
  address_plain : Plain address

theorem Plain.nul {text : List UInt8} (h : Plain text) : 0 ∉ text := fun hmem => (h 0 hmem).1 rfl

theorem Plain.not_mem {text : List UInt8} (h : Plain text) {c : UInt8} (hc : separates c = true) :
    c ∉ text := by
  intro hmem
  rw [(h c hmem).2] at hc
  cases hc

namespace StackFrame

def ending (f : StackFrame) : List UInt8 :=
  closingBracket :: 0x20 :: 0x5B :: (f.address ++ [0x5D])

/-- `path(symbol+offset) [address]`. -/
def text (f : StackFrame) : List UInt8 :=
  f.execPath ++ openingBracket :: (f.symbol ++ plusSign :: (f.offset ++ f.ending))

theorem ending_plain (f : StackFrame) :
    0 ∉ f.ending ∧ openingBracket ∉ f.ending ∧ plusSign ∉ f.ending := by
  have haddress := f.address_plain
  unfold ending
  simp only [List.mem_cons, List.mem_append, List.not_mem_nil, or_false, not_or]
  refine ⟨⟨by decide, by decide, by decide, haddress.nul, by decide⟩,
    ⟨by decide, by decide, by decide, haddress.not_mem rfl, by decide⟩,
    by decide, by decide, by decide, haddress.not_mem rfl, by decide⟩

theorem nul_text (f : StackFrame) : 0 ∉ f.text := by
  unfold text
  simp only [List.mem_append, List.mem_cons, not_or]
  exact ⟨f.execPath_nul, by decide, f.symbol_plain.nul, by decide, f.offset_plain.nul,
    f.ending_plain.1⟩

end StackFrame

/-! ## What the loop does -/

/-- One character: it is blanked where it separates, and its place may be kept. -/
theorem parseLoop_char {front rest : List UInt8} {c : UInt8} (hc : c ≠ 0) (fuel : Nat)
    (execFile symbolString offsetString : Option Nat) :
    parseLoop (fuel + 1) ⟨front ++ c :: rest, execFile, symbolString, offsetString⟩ front.length =
      parseLoop fuel ⟨front ++ (if separates c then 0 else c) :: rest, execFile,
        if c = openingBracket then some (front.length + 1) else symbolString,
        if c = plusSign then some (front.length + 1) else offsetString⟩ (front.length + 1) := by
  have hread : (front ++ c :: rest)[front.length]? = some c := by simp
  have hset : (front ++ c :: rest).set front.length 0 = front ++ 0 :: rest := by simp
  rw [parseLoop]
  simp only [hread, if_neg hc]
  by_cases hopen : c = openingBracket
  · subst hopen
    rw [if_pos rfl, hset]
    rfl
  · by_cases hplus : c = plusSign
    · subst hplus
      rw [if_neg hopen, if_pos rfl, hset]
      rfl
    · rw [if_neg hopen, if_neg hplus, if_neg hopen, if_neg hplus]
      by_cases hclose : c = closingBracket
      · subst hclose
        rw [if_pos rfl, hset]
        rfl
      · have hsep : separates c = false := by simp [separates, hopen, hplus, hclose]
        rw [if_neg hclose, hsep, if_neg Bool.false_ne_true]

/-- From a place on, the loop blanks the rest of the line and keeps the last places. -/
theorem parseLoop_eq (front : List UInt8) {rest beyond : List UInt8} (hrest : 0 ∉ rest) {fuel : Nat}
    (hfuel : rest.length < fuel) (execFile symbolString offsetString : Option Nat) :
    parseLoop fuel ⟨front ++ (rest ++ 0 :: beyond), execFile, symbolString, offsetString⟩
        front.length =
      .done ⟨front ++ (blank 0 separates rest ++ 0 :: beyond), execFile,
        behind openingBracket front.length rest symbolString,
        behind plusSign front.length rest offsetString⟩ := by
  obtain ⟨fuel, rfl⟩ : ∃ k, fuel = k + 1 := ⟨fuel - 1, by omega⟩
  induction rest generalizing front fuel symbolString offsetString with
  | nil =>
      have hend : (front ++ ([] ++ 0 :: beyond))[front.length]? = some 0 := by simp
      rw [parseLoop]
      simp only [hend, if_true]
      rfl
  | cons c rest ih =>
      have hc : c ≠ 0 := fun h => hrest (h ▸ List.mem_cons_self)
      have htail : 0 ∉ rest := fun h => hrest (List.mem_cons_of_mem c h)
      rw [List.length_cons] at hfuel
      obtain ⟨fuel, rfl⟩ : ∃ k, fuel = k + 1 := ⟨fuel - 1, by omega⟩
      let x := if separates c then 0 else c
      have hlength : front.length + 1 = (front ++ [x]).length := by simp
      have hfront : ∀ xs : List UInt8, front ++ x :: xs = (front ++ [x]) ++ xs := fun _ => by simp
      rw [List.cons_append, parseLoop_char hc]
      show parseLoop (fuel + 1) ⟨front ++ x :: (rest ++ 0 :: beyond), _, _, _⟩ _ = _
      rw [hfront, hlength, ih _ htail _ _ fuel (by omega), ← hfront, ← hlength]
      rfl

theorem parseStrings_eq (line : Line) {fuel : Nat} (hfuel : line.text.length < fuel) :
    parseStrings fuel line.memory =
      .done ⟨blank 0 separates line.text ++ 0 :: line.beyond, some 0,
        behind openingBracket 0 line.text none, behind plusSign 0 line.text none⟩ :=
  parseLoop_eq [] line.nul hfuel _ _ _

/-! ## The parts of a line -/

namespace StackFrame

variable {f : StackFrame} {beyond : List UInt8} {fuel : Nat}

def line (f : StackFrame) (beyond : List UInt8) : Line := ⟨f.text, f.nul_text, beyond⟩

/-- The pointers denote the parts that the line was made of. -/
def ParsesBack (f : StackFrame) (r : Parsed) : Prop :=
  r.denotes r.execFile = some f.execPath ∧ r.denotes r.symbolString = some f.symbol ∧
    r.denotes r.offsetString = some f.offset

/-- The last bracket is the one in front of the symbol, and the last plus is the one behind it. -/
theorem behind_text (f : StackFrame) :
    behind openingBracket 0 f.text none = some (f.execPath.length + 1) ∧
      behind plusSign 0 f.text none = some (f.execPath.length + 1 + f.symbol.length + 1) := by
  have hopen : openingBracket ∉ f.symbol ++ plusSign :: (f.offset ++ f.ending) := by
    simp only [List.mem_append, List.mem_cons, not_or]
    exact ⟨f.symbol_plain.not_mem rfl, by decide, f.offset_plain.not_mem rfl, f.ending_plain.2.1⟩
  have hplus : plusSign ∉ f.offset ++ f.ending := by
    rw [List.mem_append, not_or]
    exact ⟨f.offset_plain.not_mem rfl, f.ending_plain.2.2⟩
  constructor
  · rw [text, behind_last hopen, Nat.zero_add]
  · have hsplit : f.text = (f.execPath ++ openingBracket :: f.symbol) ++
        plusSign :: (f.offset ++ f.ending) := by simp [text]
    rw [hsplit, behind_last hplus, List.length_append, List.length_cons, Nat.zero_add]
    congr 1
    omega

/-- The text behind a place of the line ends at the next separator. -/
theorem denotes_behind {r : Parsed} (hr : parseStrings fuel (f.line beyond).memory = .done r)
    (hfuel : f.text.length < fuel) {front rest : List UInt8} (hsplit : f.text = front ++ rest) :
    r.denotes (some front.length) = some (rest.takeWhile fun c => !separates c) := by
  obtain rfl := ParseResult.done.inj ((parseStrings_eq (f.line beyond) hfuel).symm.trans hr)
  have hle : front.length ≤ f.text.length := by
    rw [hsplit, List.length_append]
    exact Nat.le_add_right _ _
  have hstring : cString 0 (blank 0 separates f.text ++ 0 :: beyond) front.length =
      some ((f.text.drop front.length).takeWhile fun c => !separates c) :=
    cString_blank f.nul_text hle
  show cString 0 (blank 0 separates f.text ++ 0 :: beyond) front.length = _
  rw [hstring, hsplit, List.drop_left]

theorem parsesBack_iff {r : Parsed} (hr : parseStrings fuel (f.line beyond).memory = .done r)
    (hfuel : f.text.length < fuel) :
    f.ParsesBack r ↔ ∀ c ∈ f.execPath, separates c = false := by
  have hparsed := ParseResult.done.inj ((parseStrings_eq (f.line beyond) hfuel).symm.trans hr)
  obtain ⟨hopen, hplus⟩ := f.behind_text
  have hexec : r.denotes r.execFile = some f.execPath ↔ ∀ c ∈ f.execPath, separates c = false := by
    have hplace : r.execFile = some ([] : List UInt8).length := by
      rw [← hparsed]
      rfl
    rw [hplace, denotes_behind hr hfuel (List.nil_append f.text).symm, Option.some.injEq]
    exact takeWhile_piece_iff rfl
  have hsymbol : r.denotes r.symbolString = some f.symbol := by
    have hsplit : f.text = (f.execPath ++ [openingBracket]) ++
        (f.symbol ++ plusSign :: (f.offset ++ f.ending)) := by simp [text]
    have hplace : r.symbolString = some (f.execPath ++ [openingBracket]).length := by
      rw [← hparsed, List.length_append]
      exact hopen
    rw [hplace, denotes_behind hr hfuel hsplit,
      takeWhile_piece (fun c hc => (f.symbol_plain c hc).2) rfl]
  have hoffset : r.denotes r.offsetString = some f.offset := by
    have hsplit : f.text = (f.execPath ++ openingBracket :: (f.symbol ++ [plusSign])) ++
        (f.offset ++ f.ending) := by simp [text]
    have hplace : r.offsetString =
        some (f.execPath ++ openingBracket :: (f.symbol ++ [plusSign])).length := by
      rw [← hparsed]
      refine hplus.trans (congrArg some ?_)
      simp only [List.length_append, List.length_cons, List.length_nil]
      omega
    rw [hplace, denotes_behind hr hfuel hsplit, ending,
      takeWhile_piece (fun c hc => (f.offset_plain c hc).2) rfl]
  unfold ParsesBack
  rw [hexec]
  exact ⟨fun h => h.1, fun h => ⟨h, hsymbol, hoffset⟩⟩

end StackFrame

/-! ## Pointers that were assigned -/

/-- `CalculateOffset` uses none of its two pointers before `parseStrings` has assigned it. -/
def UsesAssigned (r : Except OffsetFault (UInt64 × Parsed)) : Prop :=
  r ≠ .error .symbolString ∧ r ≠ .error .offsetString

/-- The text behind the last character of a kind, where there is one. -/
theorem readString_behind {line : Line} {r : Parsed} (c : UInt8) (unassigned : OffsetFault)
    (hmemory : r.memory = blank 0 separates line.text ++ 0 :: line.beyond) :
    (∃ text, readString r (behind c 0 line.text none) unassigned = .ok text) ∧ c ∈ line.text ∨
      readString r (behind c 0 line.text none) unassigned = .error unassigned ∧ c ∉ line.text := by
  cases hplace : behind c 0 line.text none with
  | none =>
      right
      have hnot : ¬ (behind c 0 line.text none).isSome := by rw [hplace]; exact Bool.false_ne_true
      rw [behind_isSome_iff] at hnot
      exact ⟨rfl, fun hmem => hnot (Or.inr hmem)⟩
  | some k =>
      left
      have hle := behind_le (by rintro _ ⟨⟩) hplace
      rw [Nat.zero_add] at hle
      have hsome : (behind c 0 line.text none).isSome := by rw [hplace]; rfl
      have hread : readString r (some k) unassigned =
          .ok ((line.text.drop k).takeWhile fun c => !separates c) := by
        simp only [readString, hmemory, cString_blank line.nul hle]
      exact ⟨⟨_, hread⟩, (behind_isSome_iff.mp hsome).resolve_left Bool.false_ne_true⟩

/-- The symbol may be unknown to the loader, but the pointers have been used by then. -/
theorem symbolOffset_cases (ld : Loader) (symbolText : List UInt8) (offset : UInt64) :
    (∃ x, symbolOffset ld symbolText offset = .ok x) ∨
      symbolOffset ld symbolText offset = .error .dlErrorSting := by
  unfold symbolOffset
  dsimp only
  split
  · exact Or.inl ⟨_, rfl⟩
  · split
    · exact Or.inr rfl
    · cases ld.dladdr (ld.dlsym symbolText) with
      | some found => exact Or.inl ⟨_, rfl⟩
      | none =>
          cases ld.dladdrError (ld.dlsym symbolText) with
          | true => exact Or.inl ⟨_, rfl⟩
          | false => exact Or.inr rfl

/-- A line with both characters gets as far as the loader, and any other one does not. -/
theorem calculateOffset_cases (ld : Loader) (line : Line) {fuel : Nat}
    (hfuel : line.text.length < fuel) :
    (((∃ x, calculateOffset ld fuel line.memory = .ok x) ∨
          calculateOffset ld fuel line.memory = .error .dlErrorSting) ∧
        openingBracket ∈ line.text ∧ plusSign ∈ line.text) ∨
      ((calculateOffset ld fuel line.memory = .error .symbolString ∨
          calculateOffset ld fuel line.memory = .error .offsetString) ∧
        ¬ (openingBracket ∈ line.text ∧ plusSign ∈ line.text)) := by
  obtain ⟨r, hr, hmemory, hsymbolString, hoffsetString⟩ : ∃ r,
      parseStrings fuel line.memory = .done r ∧
      r.memory = blank 0 separates line.text ++ 0 :: line.beyond ∧
      r.symbolString = behind openingBracket 0 line.text none ∧
      r.offsetString = behind plusSign 0 line.text none :=
    ⟨_, parseStrings_eq line hfuel, rfl, rfl, rfl⟩
  unfold calculateOffset
  rw [hr]
  dsimp only
  rw [hsymbolString, hoffsetString]
  rcases readString_behind plusSign .offsetString hmemory with
    ⟨⟨offsetText, hoffset⟩, hplus⟩ | ⟨hoffset, hplus⟩
  · rcases readString_behind openingBracket .symbolString hmemory with
      ⟨⟨symbolText, hsymbol⟩, hopen⟩ | ⟨hsymbol, hopen⟩
    · rw [hoffset, hsymbol]
      refine Or.inl ⟨?_, hopen, hplus⟩
      dsimp only [Bind.bind, Except.bind]
      rcases symbolOffset_cases ld symbolText (match ld.sscanf offsetText with
        | .pointer p => p
        | _ => 0) with ⟨x, hx⟩ | hfault
      · rw [hx]
        exact Or.inl ⟨_, rfl⟩
      · rw [hfault]
        exact Or.inr rfl
    · rw [hoffset, hsymbol]
      exact Or.inr ⟨Or.inl rfl, fun h => hopen h.1⟩
  · rw [hoffset]
    exact Or.inr ⟨Or.inr rfl, fun h => hplus h.2⟩

theorem usesAssigned_iff (ld : Loader) (line : Line) {fuel : Nat}
    (hfuel : line.text.length < fuel) :
    UsesAssigned (calculateOffset ld fuel line.memory) ↔
      openingBracket ∈ line.text ∧ plusSign ∈ line.text := by
  rcases calculateOffset_cases ld line hfuel with ⟨⟨x, hx⟩ | hx, hboth⟩ | ⟨hfault, hnot⟩
  · rw [hx]
    exact iff_of_true ⟨by rintro ⟨⟩, by rintro ⟨⟩⟩ hboth
  · rw [hx]
    exact iff_of_true ⟨by rintro ⟨⟩, by rintro ⟨⟩⟩ hboth
  · refine iff_of_false (fun h => ?_) hnot
    rcases hfault with hsymbol | hoffset
    · exact h.1 hsymbol
    · exact h.2 hoffset

/-- **A line is parsed back to its parts** exactly when its path has no bracket and no plus; and
`CalculateOffset` uses only pointers that were assigned exactly when the line it is given has an
opening bracket and a plus. -/
theorem parseStrings_inverts_iff (f : StackFrame) (line : Line) :
    ((∀ beyond fuel, f.text.length < fuel →
        ∃ r, parseStrings fuel (f.line beyond).memory = .done r ∧ f.ParsesBack r) ↔
      ∀ c ∈ f.execPath, separates c = false) ∧
    ((∀ ld fuel, line.text.length < fuel →
        UsesAssigned (calculateOffset ld fuel line.memory)) ↔
      openingBracket ∈ line.text ∧ plusSign ∈ line.text) := by
  constructor
  · constructor
    · intro h
      obtain ⟨r, hr, hback⟩ := h [] _ (Nat.lt_succ_self _)
      exact (StackFrame.parsesBack_iff hr (Nat.lt_succ_self _)).mp hback
    · intro hpath beyond fuel hfuel
      have hr := parseStrings_eq (f.line beyond) hfuel
      exact ⟨_, hr, (StackFrame.parsesBack_iff hr hfuel).mpr hpath⟩
  · constructor
    · intro h
      let ld : Loader := {
        sscanf := fun _ => .eof, dlsym := fun _ => 0, dladdr := fun _ => none
        dlsymError := fun _ => true, dladdrError := fun _ => false }
      exact (usesAssigned_iff ld line (Nat.lt_succ_self _)).mp (h ld _ (Nat.lt_succ_self _))
    · intro hboth ld fuel hfuel
      exact (usesAssigned_iff ld line hfuel).mpr hboth

/-- The line `/a(f+1) [2]`. -/
theorem parseStrings_inverts_iff_run :
    let f : StackFrame := {
      execPath := [0x2F, 0x61], symbol := [0x66], offset := [0x31], address := [0x32]
      execPath_ne := by decide, execPath_nul := by decide, symbol_plain := by decide
      offset_plain := by decide, address_plain := by decide }
    (∃ r, parseStrings 16 (f.line []).memory = .done r ∧ f.ParsesBack r) ∧
      ∀ ld, UsesAssigned (calculateOffset ld 16 (f.line []).memory) := by
  intro f
  obtain ⟨hback, hassigned⟩ := parseStrings_inverts_iff f (f.line [])
  have hall : f.execPath.all (fun c => separates c = false) = true := by decide
  have hpath : ∀ c ∈ f.execPath, separates c = false := by
    intro c hc
    exact of_decide_eq_true (List.all_eq_true.mp hall c hc)
  exact ⟨hback.mpr hpath [] 16 (by decide),
    fun ld => hassigned.mpr (by decide) ld 16 (by decide)⟩

/-- `/c++(f+1) [2]` is taken for a frame of `/c`, and `[2]` has no offset to read. -/
theorem not_parseStrings_inverts :
    let f : StackFrame := {
      execPath := [0x2F, 0x63, 0x2B, 0x2B], symbol := [0x66], offset := [0x31], address := [0x32]
      execPath_ne := by decide, execPath_nul := by decide, symbol_plain := by decide
      offset_plain := by decide, address_plain := by decide }
    let line : Line := { text := [0x5B, 0x32, 0x5D], nul := by decide }
    (∃ r, parseStrings 16 (f.line []).memory = .done r ∧
      r.denotes r.execFile = some [0x2F, 0x63] ∧ ¬ f.ParsesBack r) ∧
    ∀ ld, calculateOffset ld 16 line.memory = .error .offsetString := by
  intro f line
  constructor
  · refine ⟨_, rfl, by decide, fun h => ?_⟩
    exact absurd h.1 (by decide)
  · exact fun ld => rfl

end Npp.Basic
