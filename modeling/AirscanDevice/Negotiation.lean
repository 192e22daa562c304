/-
# The negotiation state machine

The design describes each device as a small state machine driven by the completions of its
capability requests: `ProbingAddress(i)` moves to `Negotiated` on a success, to
`ProbingAddress(i+1)` on a failure while an address is left, and to `Removed` after the last
one; removal ends it at any time.  `PhaseStep n` is that machine for a device with `n`
addresses, and `Device.phase` reads the phase off a record, from its flags and
`addr_current`.  The machine on its own: `Removed` is final, `Negotiated` is left only for
`Removed`, and the address index stays below `n` (`PhaseStep.valid`).  `Phase.onReply` is
the transition the design prescribes for the reply to a capability request, and always one
of the machine's.  `Phase.rank` counts the replies a phase can still take: no transition
raises it and a prescribed reply lowers it (`Phase.rank_onReply_lt`), so the machine
terminates.  That the code implements the machine is `Refinement.lean`.
-/
import AirscanDevice.Invariant

namespace AirscanDevice

/-! ## 1. The machine -/

/-- The phase of a device. -/
inductive Phase
  | probing (i : Nat)
  | negotiated (i : Nat)
  | removed
  deriving DecidableEq, Repr

/-- One transition of the machine of a device with `n` addresses, or none. -/
inductive PhaseStep (n : Nat) : Phase → Phase → Prop
  | stay (p : Phase) : PhaseStep n p p
  | next (i : Nat) : i + 1 < n → PhaseStep n (.probing i) (.probing (i + 1))
  | success (i : Nat) : PhaseStep n (.probing i) (.negotiated i)
  | remove (p : Phase) : PhaseStep n p .removed

/-- The phases of a device with `n` addresses: the index names one of them. -/
def Phase.Valid (n : Nat) : Phase → Prop
  | .probing i => i < n
  | .negotiated i => i < n
  | .removed => True

/-- The transition the design prescribes when the request of `ProbingAddress(i)` completes
with a reply that succeeded (`ok`) or failed; the other phases have no request. -/
def Phase.onReply (n : Nat) (ok : Bool) : Phase → Phase
  | .probing i => if ok then .negotiated i else if i + 1 < n then .probing (i + 1) else .removed
  | p => p

namespace PhaseStep

variable {n : Nat} {p q : Phase}

/-- The prescribed transition is one of the machine's. -/
theorem of_onReply (ok : Bool) : ∀ p, PhaseStep n p (p.onReply n ok)
  | .probing i => by
    cases ok
    · show PhaseStep n _ (if i + 1 < n then _ else _)
      split
      exacts [.next i ‹_›, .remove _]
    · exact .success i
  | .negotiated _ => .stay _
  | .removed => .stay _

/-- `Removed` is final. -/
theorem removed_eq (h : PhaseStep n .removed q) : q = .removed := by
  cases h <;> rfl

/-- `Negotiated` is left only for `Removed`. -/
theorem negotiated_eq {i : Nat} (h : PhaseStep n (.negotiated i) q) :
    q = .negotiated i ∨ q = .removed := by
  cases h
  exacts [.inl rfl, .inr rfl]

/-- The machine never leaves the addresses. -/
theorem valid (h : PhaseStep n p q) (hp : p.Valid n) : q.Valid n := by
  cases h with
  | stay => exact hp
  | next i hi => exact hi
  | success i => exact hp
  | remove => trivial

end PhaseStep

/-- The replies a phase can still take: `n - i` from `ProbingAddress(i)`, none from
`Negotiated` or `Removed`. -/
def Phase.rank (n : Nat) : Phase → Nat
  | .probing i => n - i
  | _ => 0

/-- No transition raises the rank. -/
theorem PhaseStep.rank_le {n : Nat} {p q : Phase} (h : PhaseStep n p q) :
    q.rank n ≤ p.rank n := by
  cases h with
  | stay => exact le_rfl
  | next i _ => exact Nat.sub_le_sub_left (Nat.le_succ i) n
  | success | remove => exact Nat.zero_le _

/-- **The machine terminates**: the prescribed reply to the request of `ProbingAddress(i)`
lowers the rank, so a record takes at most `n - i` more replies. -/
theorem Phase.rank_onReply_lt {n i : Nat} (hi : i < n) (ok : Bool) :
    ((Phase.probing i).onReply n ok).rank n < (Phase.probing i).rank n := by
  show (if ok then _ else _ : Phase).rank n < n - i
  cases ok
  · show (if i + 1 < n then _ else _ : Phase).rank n < n - i
    split
    · exact Nat.sub_lt_sub_left hi (Nat.lt_succ_self i)
    · exact Nat.sub_pos_of_lt hi
  · exact Nat.sub_pos_of_lt hi

/-! ## 2. The phase of a record -/

/-- The phase a record is in. -/
def Device.phase (dev : Device) : Phase :=
  if dev.flags.halted then .removed
  else if dev.flags.ready then .negotiated dev.probeIndex
  else .probing dev.probeIndex

/-- The phase of the record at `d`; a freed record is `Removed`. -/
def World.phase (s : World) (d : Nat) : Phase := ((s.devs d).map Device.phase).getD .removed

/-- The number of addresses probing tries: the list's, or the one URL of a static device. -/
def Device.addrCount (dev : Device) : Nat := dev.lastIndex + 1

section Phase

variable {dev : Device}

/-- `addr_current` is at most the last position. -/
theorem Device.Ok.probeIndex_le (h : dev.Ok) : dev.probeIndex ≤ dev.lastIndex := by
  rcases h.cursor with ⟨-, hc⟩ | ⟨i, hc, hi⟩ <;>
    simp only [Device.probeIndex, Device.lastIndex, hc, Option.getD_none, Option.getD_some] <;>
    omega

@[simp] theorem Device.phase_halt : dev.halt.phase = .removed := rfl

theorem Device.phase_of_probing (hh : dev.flags.halted = false) (hr : dev.flags.ready = false) :
    dev.phase = .probing dev.probeIndex := by
  simp [Device.phase, hh, hr]

/-- A failure with an address left: `ProbingAddress(i)` to `ProbingAddress(i+1)`. -/
theorem Device.phaseStep_next {y : Device} {i : Nat} (hh : dev.flags.halted = false)
    (hr : dev.flags.ready = false) (hi : dev.addrCurrent = some i)
    (hn : i + 1 < dev.addresses.length) (hf : y.flags = dev.flags)
    (hy : y.addrCurrent = some (i + 1)) : PhaseStep dev.addrCount dev.phase y.phase := by
  simp only [Device.phase, Device.probeIndex, hf, hh, hr, hi, hy, Option.getD_some,
    Bool.false_eq_true, if_false]
  exact .next i (by unfold Device.addrCount Device.lastIndex; omega)

/-- A success: `ProbingAddress(i)` to `Negotiated`, at the same address. -/
theorem Device.phaseStep_ready {y : Device} (hh : dev.flags.halted = false)
    (hr : dev.flags.ready = false)
    (hf : y.flags = { dev.flags with ready := true, initWait := false })
    (hy : y.addrCurrent = dev.addrCurrent) : PhaseStep dev.addrCount dev.phase y.phase := by
  simp only [Device.phase, Device.probeIndex, hf, hh, hr, hy, Bool.false_eq_true, if_false,
    if_true]
  exact .success _

/-- Once `addr_current` is the last address, a failure has no next one. -/
theorem Device.Ok.no_next (h : dev.Ok)
    (hl : ∀ i, dev.addrCurrent = some i → dev.addresses.length ≤ i + 1) :
    ¬dev.probeIndex + 1 < dev.addrCount := by
  unfold Device.addrCount Device.lastIndex
  rcases h.cursor with ⟨ha, hc⟩ | ⟨i, hc, -⟩
  · simp [Device.probeIndex, ha, hc]
  · have := hl i hc
    simp only [Device.probeIndex, hc, Option.getD_some]
    omega

/-- A record is listed exactly while it has not been removed. -/
theorem Device.Ok.listed_iff_phase (h : dev.Ok) :
    dev.flags.listed = true ↔ dev.phase ≠ .removed := by
  rw [h.listed_iff]
  unfold Device.phase
  cases dev.flags.halted <;> cases dev.flags.ready <;> simp

/-- The phase of a valid record is one of its machine's. -/
theorem Device.Ok.phase_valid (h : dev.Ok) : dev.phase.Valid dev.addrCount := by
  have hle : dev.probeIndex < dev.addrCount := Nat.lt_succ_of_le h.probeIndex_le
  unfold Device.phase
  split
  · trivial
  · split <;> exact hle

end Phase

end AirscanDevice
