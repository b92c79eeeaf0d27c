import Npp.Network.RankReport

/-!
# Registrations that overlap

`registerTarget` looks for the entry of the rank and inserts one when there is none; between the two
it holds nothing, and `insert` leaves an entry that has come meanwhile. Any number of calls may be
under way, with the rank reports of the network loop and with `getSendSocket` and
`clearSendSocket`, which change only the socket of an entry.
-/

namespace Npp.Network

open Npp.Foundation

inductive RegisterPhase where
  | begun
  | inserting
  | written
  | returned
deriving DecidableEq, Repr

/-- `before` has the calls that had returned when this one began. -/
structure RegisterCall (θ : Type) where
  rank : Int
  ip : UInt32
  port : UInt16
  phase : RegisterPhase := .begun
  before : List θ

def RegisterCall.address {θ : Type} (c : RegisterCall θ) : UInt32 × UInt16 :=
  (htonl c.ip, htons c.port)

namespace Node

def storedAddress (n : Node) (rank : Int) : Option (UInt32 × UInt16) :=
  (n.socks rank).map fun target => (target.ip, target.port)

end Node

/-- `writer` is the call that has written the address of the entry; a rank report is none. -/
structure RegisterState (θ : Type) where
  node : Node
  calls : θ → Option (RegisterCall θ) := fun _ => none
  returned : List θ := []
  writer : Int → Option θ := fun _ => none

namespace RegisterState

inductive Label (θ : Type) where
  | registerTarget (t : θ) (rank : Int) (ip : UInt32) (port : UInt16)
  | find (t : θ)
  | insert (t : θ)
  | ret (t : θ)
  | rankReport (rank : Int) (ip : UInt32) (port : UInt16) (connfd : Int)
  | clearSendSocket (rank : Int)
  | getSendSocket (rank : Int) (a : ConnectOutcome)

section Steps

variable {θ : Type} [DecidableEq θ]

def setPhase (s : RegisterState θ) (t : θ) (c : RegisterCall θ) (phase : RegisterPhase) :
    RegisterState θ :=
  { s with calls := Function.update s.calls t (some { c with phase := phase }) }

def write (s : RegisterState θ) (t : θ) (c : RegisterCall θ) (node : Node) : RegisterState θ :=
  { s.setPhase t c .written with
    node := node
    writer := Function.update s.writer c.rank (some t) }

def step (s : RegisterState θ) : Label θ → Option (RegisterState θ)
  | .registerTarget t rank ip port =>
      match s.calls t with
      | some _ => none
      | none =>
          some { s with
            calls := Function.update s.calls t
              (some { rank := rank, ip := ip, port := port, before := s.returned }) }
  | .find t =>
      match s.calls t with
      | none => none
      | some c =>
          if c.phase = .begun then
            match s.node.socks c.rank with
            | some _ => some (s.write t c (s.node.registerTarget c.rank c.ip c.port))
            | none => some (s.setPhase t c .inserting)
          else none
  | .insert t =>
      match s.calls t with
      | none => none
      | some c =>
          if c.phase = .inserting then
            match s.node.socks c.rank with
            -- the entry has come since `find`, and stays
            | some _ => some (s.setPhase t c .written)
            | none =>
                some (s.write t c (s.node.insert c.rank
                  { rank := c.rank, ip := htonl c.ip, port := htons c.port }))
          else none
  | .ret t =>
      match s.calls t with
      | none => none
      | some c =>
          if c.phase = .written then
            some { s.setPhase t c .returned with returned := s.returned ++ [t] }
          else none
  | .rankReport rank ip port connfd =>
      some { s with
        node := s.node.insert rank { rank := rank, ip := ip, port := port, sock := connfd } }
  | .clearSendSocket rank => some { s with node := s.node.clearSendSocket rank }
  | .getSendSocket rank a =>
      (s.node.getSendSocket rank a).map fun x => { s with node := x.2 }

def machine (n : Node) : Machine (RegisterState θ) (Label θ) where
  init := { node := { n with socks := fun _ => none } }
  step := step

end Steps

variable {θ : Type} {s s' : RegisterState θ} {l : Label θ} {t w : θ} {c c' : RegisterCall θ}

def HasAddress (s : RegisterState θ) (rank : Int) (w : θ) : Prop :=
  ∃ c, s.calls w = some c ∧ c.rank = rank ∧ s.node.storedAddress rank = some c.address

def Through (c : RegisterCall θ) : Prop := c.phase = .written ∨ c.phase = .returned

/-- No registration is lost: a call that is through has left an entry that a call has written, and
when all calls of a rank have returned it has the address of one that no later call followed. (An
entry made by a rank report does not do, also where the report happens to have the address.) -/
structure Registered (s : RegisterState θ) : Prop where
  kept : ∀ t c, s.calls t = some c → Through c →
    ∃ w, s.writer c.rank = some w ∧ s.HasAddress c.rank w
  settled : ∀ rank, (∃ t c, s.calls t = some c ∧ c.rank = rank) →
    (∀ t c, s.calls t = some c → c.rank = rank → c.phase = .returned) →
    ∃ w, s.HasAddress rank w ∧
      ∀ t c, s.calls t = some c → c.rank = rank → w ∉ c.before

/-- An `insert` that finds an entry finds one that a call of `registerTarget` has written. -/
def Yields (s : RegisterState θ) : Label θ → Prop
  | .insert t => ∀ c ∈ s.calls t, (s.node.socks c.rank).isSome → (s.writer c.rank).isSome
  | _ => True

instance (s : RegisterState θ) : ∀ l, Decidable (s.Yields l)
  | .insert t => inferInstanceAs
      (Decidable (∀ c ∈ s.calls t, (s.node.socks c.rank).isSome → (s.writer c.rank).isSome))
  | .registerTarget _ _ _ _ | .find _ | .ret _ | .rankReport _ _ _ _ | .clearSendSocket _
  | .getSendSocket _ _ => .isTrue trivial

/-! ## What every run keeps -/

structure Ordered (s : RegisterState θ) : Prop where
  writer : ∀ rank w, s.writer rank = some w → s.HasAddress rank w
  /-- What comes before a call has returned. -/
  before : ∀ t c, s.calls t = some c → ∀ w ∈ c.before, w ∈ s.returned
  returned : ∀ w ∈ s.returned, ∃ c, s.calls w = some c ∧ c.phase = .returned
  /-- A call that has looked for the entry comes after no writer of it. -/
  order : ∀ rank w t c, s.writer rank = some w → s.calls t = some c → c.rank = rank →
    c.phase ≠ .begun → w ∉ c.before

def Written (s : RegisterState θ) : Prop :=
  ∀ t c, s.calls t = some c → Through c → (s.writer c.rank).isSome

/-! ## What is stored -/

section Stored

variable {n n' : Node} {rank : Int}

theorem storedAddress_none (h : n.socks rank = none) : n.storedAddress rank = none := by
  unfold Node.storedAddress
  rw [h]
  rfl

theorem storedAddress_setTarget (target : Target) :
    (n.setTarget rank target).storedAddress =
      Function.update n.storedAddress rank (some (target.ip, target.port)) := by
  funext r
  show (Function.update n.socks rank (some target) r).map _ = _
  by_cases hr : r = rank
  · subst hr
    rw [Function.update_self, Function.update_self]
    rfl
  · rw [Function.update_of_ne hr, Function.update_of_ne hr]
    rfl

/-- Only the socket of an entry is written. -/
theorem storedAddress_setSock {target : Target} (h : n.socks rank = some target) (sock : Int) :
    (n.setTarget rank { target with sock := sock }).storedAddress = n.storedAddress := by
  have hstored : n.storedAddress rank = some (target.ip, target.port) := by
    unfold Node.storedAddress
    rw [h]
    rfl
  rw [storedAddress_setTarget, ← hstored, Function.update_eq_self]

theorem storedAddress_congr (h : n'.socks = n.socks) : n'.storedAddress = n.storedAddress := by
  unfold Node.storedAddress
  rw [h]

theorem storedAddress_registerTarget (ip : UInt32) (port : UInt16) :
    (n.registerTarget rank ip port).storedAddress =
      Function.update n.storedAddress rank (some (htonl ip, htons port)) := by
  unfold Node.registerTarget
  split
  · exact storedAddress_setTarget _
  · exact storedAddress_setTarget _

theorem storedAddress_clearSendSocket :
    (n.clearSendSocket rank).storedAddress = n.storedAddress := by
  unfold Node.clearSendSocket
  split
  case h_1 => rfl
  case h_2 target htarget => exact storedAddress_setSock htarget _

theorem storedAddress_getSendSocket {sock : Int} {a : ConnectOutcome}
    (h : n.getSendSocket rank a = some (sock, n')) : n'.storedAddress = n.storedAddress := by
  rcases Node.getSendSocket_cases h with ⟨-, -, rfl | ⟨fd, -, rfl⟩⟩ | ⟨-, -, rfl⟩ |
    ⟨-, -, target, localIp, htarget, rfl⟩
  · rfl
  · exact storedAddress_congr rfl
  · rfl
  · exact storedAddress_setSock (n := n.setFd sock _) htarget sock

/-- `insert` keeps every address that is there. -/
theorem storedAddress_insert (target : Target) {r : Int} (h : n.storedAddress r ≠ none) :
    (n.insert rank target).storedAddress r = n.storedAddress r := by
  unfold Node.insert
  split
  case h_1 => rfl
  case h_2 hnone =>
    rw [storedAddress_setTarget]
    apply Function.update_of_ne
    rintro rfl
    exact h (storedAddress_none hnone)

theorem storedAddress_insert_none (target : Target) (h : n.socks rank = none) :
    (n.insert rank target).storedAddress =
      Function.update n.storedAddress rank (some (target.ip, target.port)) := by
  unfold Node.insert
  rw [h]
  exact storedAddress_setTarget target

end Stored

/-! ## What a step does -/

section Effects

variable [DecidableEq θ]

inductive Effect (s : RegisterState θ) : Label θ → RegisterState θ → Prop where
  | begins (t : θ) (rank : Int) (ip : UInt32) (port : UInt16) (fresh : s.calls t = none) :
      Effect s (.registerTarget t rank ip port) { s with
        calls := Function.update s.calls t
          (some { rank := rank, ip := ip, port := port, before := s.returned }) }
  | misses (t : θ) (c : RegisterCall θ) (call : s.calls t = some c) (phase : c.phase = .begun)
      (absent : s.node.socks c.rank = none) : Effect s (.find t) (s.setPhase t c .inserting)
  | writes (l : Label θ) (t : θ) (c : RegisterCall θ) (node : Node) (call : s.calls t = some c)
      (phase : c.phase = .begun ∨ c.phase = .inserting)
      (stored : node.storedAddress =
        Function.update s.node.storedAddress c.rank (some c.address))
      (yields : s.Yields l) : Effect s l (s.write t c node)
  | yields (t : θ) (c : RegisterCall θ) (call : s.calls t = some c) (phase : c.phase = .inserting)
      (entry : s.node.socks c.rank ≠ none) : Effect s (.insert t) (s.setPhase t c .written)
  | returns (t : θ) (c : RegisterCall θ) (call : s.calls t = some c) (phase : c.phase = .written) :
      Effect s (.ret t) { s.setPhase t c .returned with returned := s.returned ++ [t] }
  | other (l : Label θ) (node : Node)
      (stored : ∀ rank, s.node.storedAddress rank ≠ none →
        node.storedAddress rank = s.node.storedAddress rank)
      (yields : s.Yields l) : Effect s l { s with node := node }

theorem effect_of_step (h : s.step l = some s') : Effect s l s' := by
  cases l with
  | registerTarget t rank ip port =>
      simp only [step] at h
      split at h
      case h_1 => cases h
      case h_2 hfresh =>
        cases h
        exact .begins t rank ip port hfresh
  | find t =>
      simp only [step] at h
      split at h
      case h_1 => cases h
      case h_2 c hcall =>
        rw [Option.ite_none_right_eq_some] at h
        obtain ⟨hphase, h⟩ := h
        split at h
        case h_1 =>
          cases h
          exact .writes _ t c _ hcall (Or.inl hphase) (storedAddress_registerTarget _ _) trivial
        case h_2 habsent =>
          cases h
          exact .misses t c hcall hphase habsent
  | insert t =>
      simp only [step] at h
      split at h
      case h_1 => cases h
      case h_2 c hcall =>
        rw [Option.ite_none_right_eq_some] at h
        obtain ⟨hphase, h⟩ := h
        split at h
        case h_1 target htarget =>
          cases h
          exact .yields t c hcall hphase (htarget ▸ Option.some_ne_none target)
        case h_2 habsent =>
          cases h
          refine .writes _ t c _ hcall (Or.inr hphase) (storedAddress_insert_none _ habsent) ?_
          intro c' hc' hsome
          obtain rfl := Option.some.inj (hcall.symm.trans hc')
          rw [habsent] at hsome
          cases hsome
  | ret t =>
      simp only [step] at h
      split at h
      case h_1 => cases h
      case h_2 c hcall =>
        rw [Option.ite_none_right_eq_some] at h
        obtain ⟨hphase, h⟩ := h
        cases h
        exact .returns t c hcall hphase
  | rankReport rank ip port connfd =>
      cases h
      exact .other _ _ (fun _ hr => storedAddress_insert _ hr) trivial
  | clearSendSocket rank =>
      cases h
      exact .other _ _ (fun r _ => congrFun storedAddress_clearSendSocket r) trivial
  | getSendSocket rank a =>
      obtain ⟨⟨sock, node⟩, hget, rfl⟩ := Option.map_eq_some_iff.mp h
      exact .other _ _ (fun r _ => congrFun (storedAddress_getSendSocket hget) r) trivial

end Effects

/-! ## The calls -/

theorem HasAddress.socks {rank : Int} (h : s.HasAddress rank w) : s.node.socks rank ≠ none := by
  intro hnone
  obtain ⟨c, -, -, hstored⟩ := h
  cases (storedAddress_none hnone).symm.trans hstored

/-- A call keeps its arguments, and its entry is left as it is. -/
theorem HasAddress.mono {rank : Int} (h : s.HasAddress rank w)
    (hcalls : ∀ c, s.calls w = some c → ∃ c', s'.calls w = some c' ∧ c'.rank = c.rank ∧
      c'.address = c.address)
    (hstored : s'.node.storedAddress rank = s.node.storedAddress rank) :
    s'.HasAddress rank w := by
  obtain ⟨c, hcall, hrank, haddress⟩ := h
  obtain ⟨c', hcall', hrank', haddress'⟩ := hcalls c hcall
  exact ⟨c', hcall', hrank'.trans hrank, by rw [hstored, haddress, haddress']⟩

theorem registered_iff_written (ho : Ordered s) : Registered s ↔ Written s := by
  constructor
  · intro hr t c hc hthrough
    obtain ⟨w, hwriter, -⟩ := hr.kept t c hc hthrough
    rw [hwriter]
    rfl
  · intro hw
    have hkept : ∀ t c, s.calls t = some c → Through c →
        ∃ w, s.writer c.rank = some w ∧ s.HasAddress c.rank w := by
      intro t c hc hthrough
      obtain ⟨w, hwriter⟩ := Option.isSome_iff_exists.mp (hw t c hc hthrough)
      exact ⟨w, hwriter, ho.writer c.rank w hwriter⟩
    refine ⟨hkept, ?_⟩
    rintro rank ⟨t, c, hc, rfl⟩ hall
    obtain ⟨w, hwriter, haddress⟩ := hkept t c hc (Or.inr (hall t c hc rfl))
    refine ⟨w, haddress, ?_⟩
    intro u c' hc' hrank
    apply ho.order c.rank w u c' hwriter hc' hrank
    rw [hall u c' hc' hrank]
    rintro ⟨⟩

section Runs

variable [DecidableEq θ]

theorem calls_setPhase {phase : RegisterPhase} {u : θ}
    (h : (s.setPhase t c phase).calls u = some c') :
    (u = t ∧ c' = { c with phase := phase }) ∨ (u ≠ t ∧ s.calls u = some c') := by
  rcases FileTable.update_eq_some.mp h with ⟨hu, hnew⟩ | hold
  · exact Or.inl ⟨hu, (Option.some.inj hnew).symm⟩
  · exact Or.inr hold

theorem setPhase_keeps (hcall : s.calls t = some c) (phase : RegisterPhase) (u : θ) :
    ∀ c₀, s.calls u = some c₀ → ∃ c', (s.setPhase t c phase).calls u = some c' ∧
      c'.rank = c₀.rank ∧ c'.address = c₀.address := by
  intro c₀ hc₀
  by_cases hu : u = t
  · subst hu
    obtain rfl := Option.some.inj (hcall.symm.trans hc₀)
    exact ⟨_, Function.update_self _ _ _, rfl, rfl⟩
  · exact ⟨c₀, (Function.update_of_ne hu _ _).trans hc₀, rfl, rfl⟩

theorem Ordered.before_setPhase (ho : Ordered s) (hcall : s.calls t = some c)
    (phase : RegisterPhase) :
    ∀ u c', (s.setPhase t c phase).calls u = some c' → ∀ w ∈ c'.before, w ∈ s.returned := by
  intro u c' hc'
  rcases calls_setPhase hc' with ⟨-, rfl⟩ | ⟨-, hold⟩
  · exact ho.before t c hcall
  · exact ho.before u c' hold

theorem Ordered.returned_setPhase (ho : Ordered s) (hcall : s.calls t = some c)
    (hlive : c.phase ≠ .returned) (phase : RegisterPhase) :
    ∀ w ∈ s.returned, ∃ c', (s.setPhase t c phase).calls w = some c' ∧ c'.phase = .returned := by
  intro w hw
  obtain ⟨c', hc', hphase⟩ := ho.returned w hw
  have hne : w ≠ t := by
    rintro rfl
    obtain rfl := Option.some.inj (hcall.symm.trans hc')
    exact hlive hphase
  exact ⟨c', (Function.update_of_ne hne _ _).trans hc', hphase⟩

/-- A call that has not written moves on, past its `find` only where there is no writer. -/
theorem Ordered.setPhase (ho : Ordered s) (hcall : s.calls t = some c)
    (hlive : c.phase ≠ .returned) (phase : RegisterPhase)
    (hbegun : c.phase = .begun → s.writer c.rank = none) : Ordered (s.setPhase t c phase) := by
  refine ⟨?_, ho.before_setPhase hcall phase, ho.returned_setPhase hcall hlive phase, ?_⟩
  · intro rank w hw
    exact (ho.writer rank w hw).mono (setPhase_keeps hcall phase w) rfl
  · intro rank w u c' hw hc' hrank hphase
    rcases calls_setPhase hc' with ⟨-, rfl⟩ | ⟨-, hold⟩
    · by_cases hfirst : c.phase = .begun
      · have hnone := hbegun hfirst
        rw [show c.rank = rank from hrank] at hnone
        cases hnone.symm.trans hw
      · exact ho.order rank w t c hw hcall hrank hfirst
    · exact ho.order rank w u c' hw hold hrank hphase

/-- The last writer has not returned, so it is before no call. -/
theorem Ordered.write (ho : Ordered s) (hcall : s.calls t = some c) (hlive : c.phase ≠ .returned)
    {node : Node} (hstored : node.storedAddress =
      Function.update s.node.storedAddress c.rank (some c.address)) :
    Ordered (s.write t c node) := by
  have hwriter : ∀ rank w, (s.write t c node).writer rank = some w →
      (rank = c.rank ∧ w = t) ∨ (rank ≠ c.rank ∧ s.writer rank = some w) := by
    intro rank w hw
    rcases FileTable.update_eq_some.mp hw with ⟨hrank, hnew⟩ | hold
    · exact Or.inl ⟨hrank, (Option.some.inj hnew).symm⟩
    · exact Or.inr hold
  refine ⟨?_, ho.before_setPhase hcall .written, ho.returned_setPhase hcall hlive .written, ?_⟩
  · intro rank w hw
    rcases hwriter rank w hw with ⟨rfl, rfl⟩ | ⟨hrank, hold⟩
    · refine ⟨{ c with phase := .written }, Function.update_self _ _ _, rfl, ?_⟩
      show node.storedAddress c.rank = _
      rw [hstored, Function.update_self]
      rfl
    · have hsame : node.storedAddress rank = s.node.storedAddress rank := by
        rw [hstored, Function.update_of_ne hrank]
      exact (ho.writer rank w hold).mono (setPhase_keeps hcall .written w) hsame
  · intro rank w u c' hw hc' hrank hphase
    rcases hwriter rank w hw with ⟨rfl, rfl⟩ | ⟨hne, hold⟩
    · intro hbefore
      have hreturned := ho.before_setPhase hcall .written u c' hc' w hbefore
      obtain ⟨c₀, hc₀, hphase₀⟩ := ho.returned w hreturned
      obtain rfl := Option.some.inj (hcall.symm.trans hc₀)
      exact hlive hphase₀
    · rcases calls_setPhase hc' with ⟨-, rfl⟩ | ⟨-, hcall'⟩
      · exact absurd hrank.symm hne
      · exact ho.order rank w u c' hold hcall' hrank hphase

theorem Ordered.step (ho : Ordered s) (hstep : s.step l = some s') : Ordered s' := by
  cases effect_of_step hstep with
  | begins t rank ip port fresh =>
      have hne : ∀ u c, s.calls u = some c → u ≠ t := by
        rintro u c hc rfl
        cases fresh.symm.trans hc
      have hold : ∀ u c, s.calls u = some c → Function.update s.calls t
          (some { rank := rank, ip := ip, port := port, before := s.returned }) u = some c :=
        fun u c hc => (Function.update_of_ne (hne u c hc) _ _).trans hc
      constructor
      · intro r w hw
        exact (ho.writer r w hw).mono (fun c hc => ⟨c, hold w c hc, rfl, rfl⟩) rfl
      · intro u c hc w hw
        rcases FileTable.update_eq_some.mp hc with ⟨-, hnew⟩ | ⟨-, hcall⟩
        · obtain rfl := Option.some.inj hnew
          exact hw
        · exact ho.before u c hcall w hw
      · intro w hw
        obtain ⟨c, hc, hphase⟩ := ho.returned w hw
        exact ⟨c, hold w c hc, hphase⟩
      · intro r w u c hw hc hrank hphase
        rcases FileTable.update_eq_some.mp hc with ⟨-, hnew⟩ | ⟨-, hcall⟩
        · obtain rfl := Option.some.inj hnew
          exact absurd rfl hphase
        · exact ho.order r w u c hw hcall hrank hphase
  | misses t c call phase absent =>
      have hlive : c.phase ≠ .returned := by
        rw [phase]
        rintro ⟨⟩
      refine ho.setPhase call hlive .inserting fun _ => ?_
      cases hwriter : s.writer c.rank with
      | none => rfl
      | some w => exact absurd absent (ho.writer c.rank w hwriter).socks
  | writes l t c node call phase stored yields =>
      have hlive : c.phase ≠ .returned := by
        rcases phase with h | h <;> rw [h] <;> rintro ⟨⟩
      exact ho.write call hlive stored
  | yields t c call phase entry =>
      have hlive : c.phase ≠ .returned := by
        rw [phase]
        rintro ⟨⟩
      refine ho.setPhase call hlive .written fun hbegun => ?_
      cases phase.symm.trans hbegun
  | returns t c call phase =>
      have hlive : c.phase ≠ .returned := by
        rw [phase]
        rintro ⟨⟩
      have hset := ho.setPhase call hlive .returned fun hbegun => by
        cases phase.symm.trans hbegun
      refine ⟨hset.writer, ?_, ?_, hset.order⟩
      · intro u c' hc' w hw
        exact List.mem_append_left _ (hset.before u c' hc' w hw)
      · intro w hw
        rcases List.mem_append.mp hw with hold | hnew
        · exact hset.returned w hold
        · rw [List.mem_singleton.mp hnew]
          exact ⟨_, Function.update_self _ _ _, rfl⟩
  | other l node stored yields =>
      refine ⟨?_, ho.before, ho.returned, ho.order⟩
      intro rank w hw
      have haddress := ho.writer rank w hw
      have hsome : s.node.storedAddress rank ≠ none := by
        obtain ⟨c, -, -, hstored⟩ := haddress
        rw [hstored]
        exact Option.some_ne_none _
      exact haddress.mono (fun c hc => ⟨c, hc, rfl, rfl⟩) (stored rank hsome)

theorem ordered_init (n : Node) : Ordered ((machine n).init : RegisterState θ) :=
  ⟨by rintro _ _ ⟨⟩, by rintro _ _ ⟨⟩, by rintro _ ⟨⟩, by rintro _ _ _ _ ⟨⟩⟩

/-! ## Entries without a writer -/

theorem writer_of_write {rank : Int} {node : Node} (h : (s.writer rank).isSome) :
    ((s.write t c node).writer rank).isSome := by
  show (Function.update s.writer c.rank (some t) rank).isSome
  by_cases hrank : rank = c.rank
  · rw [hrank, Function.update_self]
    rfl
  · rw [Function.update_of_ne hrank]
    exact h

/-- One insertion that yields leaves its call without a writer, unless a call was before it. -/
theorem written_step_iff (hw : Written s) (hstep : s.step l = some s') :
    Written s' ↔ Yields s l := by
  cases effect_of_step hstep with
  | begins t rank ip port fresh =>
      refine iff_of_true ?_ trivial
      intro u c hc hthrough
      rcases FileTable.update_eq_some.mp hc with ⟨-, hnew⟩ | ⟨-, hcall⟩
      · obtain rfl := Option.some.inj hnew
        rcases hthrough with h | h <;> cases h
      · exact hw u c hcall hthrough
  | misses t c call phase absent =>
      refine iff_of_true ?_ trivial
      intro u c' hc' hthrough
      rcases calls_setPhase hc' with ⟨-, rfl⟩ | ⟨-, hold⟩
      · rcases hthrough with h | h <;> cases h
      · exact hw u c' hold hthrough
  | writes l t c node call phase stored yields =>
      refine iff_of_true ?_ yields
      intro u c' hc' hthrough
      rcases calls_setPhase hc' with ⟨-, rfl⟩ | ⟨-, hold⟩
      · show (Function.update s.writer c.rank (some t) c.rank).isSome
        rw [Function.update_self]
        rfl
      · exact writer_of_write (hw u c' hold hthrough)
  | yields t c call phase entry =>
      constructor
      · intro hw' c' hc' _
        obtain rfl := Option.some.inj (call.symm.trans hc')
        exact hw' t { c with phase := .written } (Function.update_self _ _ _) (Or.inl rfl)
      · intro hyields u c' hc' hthrough
        rcases calls_setPhase hc' with ⟨-, rfl⟩ | ⟨-, hold⟩
        · exact hyields c call (Option.isSome_iff_ne_none.mpr entry)
        · exact hw u c' hold hthrough
  | returns t c call phase =>
      refine iff_of_true ?_ trivial
      intro u c' hc' hthrough
      rcases calls_setPhase hc' with ⟨-, rfl⟩ | ⟨-, hold⟩
      · exact hw t c call (Or.inl phase)
      · exact hw u c' hold hthrough
  | other l node stored yields => exact iff_of_true hw yields

/-- A call that nobody interrupts is `registerTarget`. -/
theorem registerTarget_alone {n : Node} (hfresh : s.calls t = none) (rank : Int) (ip : UInt32)
    (port : UInt16) :
    ∃ s', (machine n).runFrom s (.registerTarget t rank ip port :: .find t ::
        if s.node.socks rank = none then [.insert t] else []) = some s' ∧
      s'.node = s.node.registerTarget rank ip port := by
  let c : RegisterCall θ := { rank := rank, ip := ip, port := port, before := s.returned }
  let begun : RegisterState θ := { s with calls := Function.update s.calls t (some c) }
  have hbegin : s.step (.registerTarget t rank ip port) = some begun := by
    simp only [step, hfresh]
    rfl
  have hcall : begun.calls t = some c := Function.update_self _ _ _
  show ∃ s', (s.step (.registerTarget t rank ip port)).bind _ = some s' ∧ _
  rw [hbegin, Option.bind_some]
  show ∃ s', (begun.step (.find t)).bind _ = some s' ∧ _
  cases hentry : s.node.socks rank with
  | none =>
      have hfind : begun.step (.find t) = some (begun.setPhase t c .inserting) := by
        have habsent : begun.node.socks c.rank = none := hentry
        have hphase : c.phase = .begun := rfl
        simp only [step, hcall, if_pos hphase, habsent]
      have hinserting : (begun.setPhase t c .inserting).calls t =
          some { c with phase := .inserting } := Function.update_self _ _ _
      rw [hfind, Option.bind_some, if_pos rfl, Machine.runFrom_singleton]
      show ∃ s', (begun.setPhase t c .inserting).step (.insert t) = some s' ∧ _
      have habsent : (begun.setPhase t c .inserting).node.socks c.rank = none := hentry
      simp only [step, hinserting, if_true, habsent]
      refine ⟨_, rfl, ?_⟩
      show s.node.insert rank _ = _
      simp only [Node.registerTarget, Node.insert, hentry]
      rfl
  | some target =>
      have hfind : begun.step (.find t) =
          some (begun.write t c (s.node.registerTarget rank ip port)) := by
        have hpresent : begun.node.socks c.rank = some target := hentry
        have hphase : c.phase = .begun := rfl
        simp only [step, hcall, if_pos hphase, hpresent]
        rfl
      rw [hfind, Option.bind_some, if_neg (Option.some_ne_none target)]
      exact ⟨_, rfl, rfl⟩

end Runs

/-! ## The result -/

/-- **No registration is lost**, however the calls and the rank reports overlap, exactly when no
`insert` of `registerTarget` finds an entry that a rank report has made since the call looked. -/
theorem registrations_kept_iff [DecidableEq θ] (n : Node) {ls : List (Label θ)}
    (hrun : (machine n).Runs ls s) :
    (machine n).Meets Yields (machine n).init ls ↔
      ∀ pre t, pre <+: ls → (machine n).Runs pre t → Registered t := by
  apply hrun.meets_iff_of_invariant (I := Written) (ordered_init n)
  · rintro _ _ ⟨⟩
  · exact fun _ _ _ ho hstep => ho.step hstep
  · exact fun _ _ _ _ hw hstep => written_step_iff hw hstep
  · exact fun _ ho => registered_iff_written ho

/-- Two calls find nothing, a rank reports itself between their insertions, and the later insertion
yields to the earlier one. -/
theorem registrations_kept_iff_run :
    let n : Node := { myRank := 1, listenPort := 9000 }
    ∃ s, (machine n).Runs [.registerTarget true 3 0x7F000001 8000,
        .registerTarget false 3 0x7F000002 8001, .find true, .find false, .insert false,
        .rankReport 3 0 0 5, .insert true, .ret true, .clearSendSocket 3, .ret false] s ∧
      s.node.storedAddress 3 = some (htonl 0x7F000002, htons 8001) ∧ Registered s := by
  intro n
  have hrun : (machine n).Runs [.registerTarget true 3 0x7F000001 8000,
      .registerTarget false 3 0x7F000002 8001, .find true, .find false, .insert false,
      .rankReport 3 0 0 5, .insert true, .ret true, .clearSendSocket 3, .ret false] _ := rfl
  exact ⟨_, hrun, by decide,
    (registrations_kept_iff n hrun).mp (by decide) _ _ List.prefix_rfl hrun⟩

/-- The peer reports itself while it is being registered; its own address is given up. -/
theorem registration_lost :
    let n : Node := { myRank := 1, listenPort := 9000 }
    ∃ s, (machine n).Runs [.registerTarget () 3 0x7F000001 8000, .find (),
        .rankReport 3 (htonl 0x7F000002) (htons 9000) 5, .insert (), .ret ()] s ∧
      s.node.storedAddress 3 = some (htonl 0x7F000002, htons 9000) ∧ ¬ Registered s := by
  refine ⟨_, rfl, by decide, fun hr => ?_⟩
  obtain ⟨w, ⟨c, hc, -, haddress⟩, -⟩ := hr.settled 3 ⟨(), _, rfl, rfl⟩ fun t c hc _ => by
    obtain rfl : c = _ := (Option.some.inj hc).symm
    rfl
  obtain rfl : c = _ := (Option.some.inj hc).symm
  exact absurd haddress (by decide)

end RegisterState

end Npp.Network
