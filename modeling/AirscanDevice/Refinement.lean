/-
# The code refines the negotiation machine

`Negotiation.lean` states the machine of the design; this module proves that the code
implements it, in both directions.

`phase_simulation`: every step from a reachable state moves every record by one transition
of its machine at most, and creates records only in `ProbingAddress(0)`; so no step takes a
record anywhere the design does not allow.

`reply_phase`: the completion of a capability request takes its record along exactly the
transition the design prescribes for the reply (`Phase.onReply`): `Negotiated` at the same
address after a success, the next address after a failure while one is left, and `Removed`
after the last; every other record keeps its phase.

`phase_run`: over a whole run, every record goes along a path of its machine, and no record
freed before the run comes back.  **The phases the code shows over time are a behaviour of
the design's machine.**
-/
import AirscanDevice.Effects

namespace AirscanDevice

open Function (update update_same update_noteq)

/-! ## 1. Every step is a transition of the machine -/

section Refinement

variable {s s' : World} {a : Action}

/-- A step from `s` to `s'` seen through `Device.phase`. -/
structure Refines (s s' : World) : Prop where
  /-- A record of `s` still live in `s'` took one transition of its machine at most. -/
  step : ∀ d dev dev', s.devs d = some dev → s'.devs d = some dev' →
    PhaseStep dev.addrCount dev.phase dev'.phase
  /-- A record the step created has a key never used before, and is probing its first
  address. -/
  created : ∀ d dev', s.devs d = none → s'.devs d = some dev' →
    s.nextDev ≤ d ∧ dev'.phase = .probing 0
  /-- Every record of `s'` is in a state of its machine, and listed unless removed. -/
  valid : ∀ d dev', s'.devs d = some dev' →
    dev'.phase.Valid dev'.addrCount ∧ (dev'.flags.listed = true ↔ dev'.phase ≠ .removed)

/-- **The code refines the negotiation state machine.**  Every step from a reachable state
moves every record along the machine of its addresses, and starts every record it creates,
under a fresh key, at `ProbingAddress(0)`. -/
theorem phase_simulation (h : Reachable s) (hstep : Step s a s') : Refines s s' := by
  have ht := Step.touches h hstep
  have hs' := inv_of_reachable (h.step hstep)
  exact ⟨fun d dev dev' hd hd' => (ht.devs d dev' hd').phase dev hd,
    fun d dev' hd hd' => (ht.devs d dev' hd').created hd,
    fun d dev' hd' => ⟨(hs'.2 d dev' hd').ok.phase_valid, (hs'.2 d dev' hd').ok.listed_iff_phase⟩⟩

theorem phase_simulation_ready : Refines probingA readyA :=
  phase_simulation probingA_reachable
    (by exact ⟨by decide, rfl⟩ : Step probingA (.httpComplete 0 capsReply) readyA)

end Refinement

/-! ## 2. A reply takes the prescribed transition -/

section Replies

variable {s s' : World} {m : Nat} {r : Reply} {msg : Msg} {dev : Device}

/-- A world that keeps every record but the one at `d` keeps their phases. -/
theorem World.phase_frame {w : World} {d : Nat} (hw : ∀ e, e ≠ d → w.devs e = s.devs e) :
    ∀ e, e ≠ d → w.phase e = s.phase e :=
  fun e he => by simp only [World.phase, hw e he]

/-- The completion of the queued request `m` of the record at `msg.dev`, from a valid state:
that record takes `Phase.onReply`, every other keeps its phase. -/
theorem Inv.phase_completed (hs : Inv s) (hm : m ∈ s.inflight)
    (hr : r.status ≠ soupStatusCancelled) (hmsg : s.msgs m = some msg)
    (hd : s.devs msg.dev = some dev)
    (he : exec (.httpComplete m r) { s with out := [] } = .ok s') :
    s'.phase msg.dev = dev.phase.onReply dev.addrCount r.ok ∧
      ∀ e, e ≠ msg.dev → s'.phase e = s.phase e := by
  obtain ⟨msg', dev', hmsg', hd', hl, hp⟩ := hs.1.inflight m hm
  cases hmsg.symm.trans hmsg'
  cases hd.symm.trans hd'
  obtain ⟨hh, hrd, -⟩ := (hs.2 _ _ hd).probing_of_pending hl hp
  rw [Device.phase_of_probing hh hrd]
  have hd2 := replied_devs_self (s := { s with out := [] }) m msg r dev
  refine (returns_deviceScannerCapabilitiesCallback
    (P := fun w => w.phase msg.dev = (Phase.probing dev.probeIndex).onReply dev.addrCount r.ok ∧
      ∀ e, e ≠ msg.dev → w.phase e = s.phase e) hd2
    (fun _ i hres hi hn => ?_) (fun _ hres hlast => ?_) fun caps src opt hres _ _ => ?_).of_ok
    ((exec_httpComplete (s := { s with out := [] }) hmsg hd hr).symm.trans he)
  · refine returns_deviceProbeAddress hd2 fun _ b _ _ _ _ => ⟨?_, World.phase_frame fun e he => ?_⟩
    · have hn : i + 1 < dev.addrCount := by
        have : i + 1 < dev.addresses.length := hn
        unfold Device.addrCount Device.lastIndex
        omega
      have hi : dev.probeIndex = i := by
        simp [Device.probeIndex, show dev.addrCurrent = some i from hi]
      rw [hi, Reply.ok_eq_false hres]
      simp [World.phase, World.queued, Device.phase, hh, hrd, Device.probeIndex, Phase.onReply, hn]
    · simp [World.queued, World.replied, update_noteq he]
  · rw [deviceDel_eq_ok (s := (({ s with out := [] } : World).replied m msg r dev).emit
      (.capsCallback msg.dev)) hd2 hl
      (hs.fits hd :)]
    refine ⟨?_, World.phase_frame fun e he => by simp [World.replied, update_noteq he]⟩
    have hno := (hs.2 _ _ hd).ok.no_next hlast
    rw [show (Phase.probing dev.probeIndex).onReply dev.addrCount r.ok = .removed by
      simp [Phase.onReply, Reply.ok_eq_false hres, hno]]
    simp only [World.phase, World.emit, deleted_devs, update_same]
    split <;> rfl
  · refine ⟨?_, World.phase_frame fun e he => by
      simp [World.setDev, World.replied, update_noteq he]⟩
    simp [World.phase, World.setDev, Device.ready, Device.phase, hh, Phase.onReply,
      Reply.ok_eq_true hres, Device.probeIndex]

/-- **A reply moves its record as the design prescribes.**  The completion of a capability
request of the record at `msg.dev`, from a reachable state, takes that record along
`Phase.onReply` for the reply and leaves the phase of every other record alone. -/
theorem reply_phase (h : Reachable s) (hstep : Step s (.httpComplete m r) s')
    (hmsg : s.msgs m = some msg) (hd : s.devs msg.dev = some dev) :
    s'.phase msg.dev = dev.phase.onReply dev.addrCount r.ok ∧
      ∀ e, e ≠ msg.dev → s'.phase e = s.phase e :=
  (inv_of_reachable h).phase_completed hstep.1.1 hstep.1.2 hmsg hd hstep.2

theorem reply_phase_ready :
    ∃ msg dev, probingA.msgs 0 = some msg ∧ probingA.devs msg.dev = some dev ∧
      readyA.phase msg.dev = dev.phase.onReply dev.addrCount capsReply.ok ∧
      ∀ e, e ≠ msg.dev → readyA.phase e = probingA.phase e :=
  ⟨_, _, rfl, rfl, reply_phase probingA_reachable
    (by exact ⟨by decide, rfl⟩ : Step probingA (.httpComplete 0 capsReply) readyA) rfl rfl⟩

end Replies

/-! ## 3. Runs -/

section Runs

variable {s s' : World} {d : Nat}

theorem Device.addrCount_congr {y dev : Device} (h : y.addresses = dev.addresses) :
    y.addrCount = dev.addrCount := by
  simp only [Device.addrCount, Device.lastIndex, h]

/-- A run from `s` to `s'` seen through the phases. -/
structure RunRefines (s s' : World) : Prop where
  /-- Every record of `s` went along a path of its machine; a freed one ends `Removed`. -/
  path : ∀ d dev, s.devs d = some dev →
    Relation.ReflTransGen (PhaseStep dev.addrCount) dev.phase (s'.phase d)
  /-- A record freed before the run is never brought back. -/
  freed : ∀ d, d < s.nextDev → s.devs d = none → s'.devs d = none

/-- A step brings no freed record back: a new record has a fresh key. -/
theorem Step.freed {a : Action} (h : Reachable s) (hstep : Step s a s') (hd : d < s.nextDev)
    (hn : s.devs d = none) : s'.devs d = none := by
  cases h' : s'.devs d with
  | none => rfl
  | some y => exact absurd ((Step.touches h hstep).devs d y h' |>.created hn).1 (Nat.not_le.mpr hd)

/-- **Along every run, every record follows its machine.**  A run from a reachable state
takes the phase of every record along a path of the negotiation machine of its addresses,
and brings back no record freed before it. -/
theorem phase_run (h : Reachable s) (as : List Action) (hr : s.run as = some s') :
    RunRefines s s' := by
  induction as generalizing s with
  | nil =>
    cases hr
    exact ⟨fun d dev hd => by simp only [World.phase, hd, Option.map_some', Option.getD_some]; rfl,
      fun _ _ hn => hn⟩
  | cons a as ih =>
    obtain ⟨s₁, hstep, hr⟩ := World.run_cons hr
    have ht := Step.touches h hstep
    have ih := ih (h.step hstep) hr
    refine ⟨fun d dev hd => ?_, fun d hd hn => ih.freed d (hd.trans_le ht.nextDev)
      (Step.freed h hstep hd hn)⟩
    cases h₁ : s₁.devs d with
    | none =>
      have hlt : d < s₁.nextDev := ((inv_of_reachable h).1.lt_nextDev hd).trans_le ht.nextDev
      have hrem : s'.phase d = .removed := by
        simp only [World.phase, ih.freed d hlt h₁, Option.map_none', Option.getD_none]
      exact hrem ▸ .single (.remove _)
    | some dev₁ =>
      have hm := ht.devs d dev₁ h₁
      exact .head (hm.phase dev hd)
        (Device.addrCount_congr (hm.addresses dev hd) ▸ ih.path d dev₁ h₁)

theorem phase_run_removed : RunRefines probingA removedA :=
  phase_run probingA_reachable [.httpComplete 0 capsReply, .removed "A"] rfl

end Runs

end AirscanDevice
