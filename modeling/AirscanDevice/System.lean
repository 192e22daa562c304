/-
# The system: every order of events

All of `airscan-device.c` runs on the airscan main-loop thread, or under its lock, so the
system is a sequence of atomic steps.  A step is one of the calls ZeroConf, the main loop and
the SANE front end make into the file, or the HTTP session finishing a message:

* `managementStart` / `managementStop`: `device_management_start_stop`, which the main loop
  calls alternately, starting and stopping the session;
* `found`, `removed`, `initScanFinished`: ZeroConf, while the main loop runs;
* `httpComplete`: the session finishes a queued message with a status and a body
  (`SOUP_STATUS_CANCELLED` is only ever the status of a cancelled message);
  `httpCancelled`: it runs the callback of one it has cancelled;
* `deviceOpen`, `deviceClose`: the front end, closing only handles it holds, and opening one
  more only while it holds fewer than `handleLimit`.  Nothing in the code bounds the opens:
  past that the `gint` reference count wraps, which `World.execAll` shows, as it runs calls
  whether or not the environment takes them.

`Step s a s'` runs `exec a` from `s` with an empty `out`; `Reachable` is every state a run
from `World.init` gets to.  A step that faults has no successor: the process is gone.
-/
import AirscanDevice.Device

namespace AirscanDevice

/-- What can happen next. -/
inductive Action
  | managementStart (conf : List ConfDevice)
  | managementStop
  | found (name : String) (initScan : Bool) (addresses : List ZeroconfAddrinfo)
  | removed (name : String)
  | initScanFinished
  | httpComplete (m : Nat) (r : Reply)
  | httpCancelled (m : Nat)
  | deviceOpen (name : String)
  | deviceClose (d : Nat)

/-- The call the step makes. -/
def exec : Action → World → Except Fault World
  | .managementStart conf, s => deviceManagementStart conf s
  | .managementStop, s => deviceManagementStop s
  | .found name initScan addresses, s => deviceFound name initScan addresses s
  | .removed name, s => deviceRemoved name s
  | .initScanFinished, s => pure (deviceInitScanFinished { s with initScan := false })
  | .httpComplete m r, s =>
    match s.msgs m with
    | some msg =>
      deviceHttpCallback msg m r
        { s with inflight := s.inflight.erase m,
                 msgs := Function.update s.msgs m (some { msg with reply := some r }) }
    | none => throw .nullDeref
  | .httpCancelled m, s =>
    match s.msgs m with
    | some msg =>
      deviceHttpCallback msg m ⟨soupStatusCancelled, none⟩
        { s with finishing := s.finishing.erase m }
    | none => throw .nullDeref
  | .deviceOpen name, s => do
    let (h, s) ← deviceOpen name s
    pure (match h with
      | some d => { s with handles := d :: s.handles }
      | none => s)
  | .deviceClose d, s => deviceClose d { s with handles := s.handles.erase d }

/-- The most handles the front end holds when it opens another, `2 ^ 31 - 3`: with the table's
reference the count of a record then stays below `G_MAXINT`, even after one more
`device_ref`. -/
def handleLimit : Nat := 2147483645

/-- When the environment takes the step. -/
def Action.Allowed (s : World) : Action → Prop
  | .managementStart _ => s.running = false
  | .managementStop => s.running = true
  | .found .. => s.running = true
  | .removed _ => s.running = true
  | .initScanFinished => s.running = true
  | .httpComplete m r => m ∈ s.inflight ∧ r.status ≠ soupStatusCancelled
  | .httpCancelled m => m ∈ s.finishing
  | .deviceOpen _ => s.handles.length < handleLimit
  | .deviceClose d => d ∈ s.handles

instance Action.decidableAllowed (s : World) : (a : Action) → Decidable (a.Allowed s)
  | .managementStart _ => inferInstanceAs (Decidable (s.running = false))
  | .managementStop => inferInstanceAs (Decidable (s.running = true))
  | .found .. => inferInstanceAs (Decidable (s.running = true))
  | .removed _ => inferInstanceAs (Decidable (s.running = true))
  | .initScanFinished => inferInstanceAs (Decidable (s.running = true))
  | .httpComplete m r =>
    inferInstanceAs (Decidable (m ∈ s.inflight ∧ r.status ≠ soupStatusCancelled))
  | .httpCancelled m => inferInstanceAs (Decidable (m ∈ s.finishing))
  | .deviceOpen _ => inferInstanceAs (Decidable (s.handles.length < handleLimit))
  | .deviceClose d => inferInstanceAs (Decidable (d ∈ s.handles))

/-- One step: allowed, and the call returns. -/
def Step (s : World) (a : Action) (s' : World) : Prop :=
  a.Allowed s ∧ exec a { s with out := [] } = .ok s'

/-- The states some run gets to. -/
inductive Reachable : World → Prop
  | init (scan : Bool) : Reachable (World.init scan)
  | step {s s' : World} {a : Action} : Reachable s → Step s a s' → Reachable s'

/-- The steps `as` taken one after another from `s`: `none` once one is not allowed or its
call faults. -/
def World.run (s : World) : List Action → Option World
  | [] => some s
  | a :: as =>
    if a.Allowed s then
      match exec a { s with out := [] } with
      | .ok s' => s'.run as
      | .error _ => none
    else none

/-- The calls `as` made one after another from `s`, whether or not the environment takes them. -/
def World.execAll (s : World) : List Action → Except Fault World
  | [] => .ok s
  | a :: as => (exec a { s with out := [] }).bind fun s' => s'.execAll as

/-- A run is a first step and the run after it. -/
theorem World.run_cons {s s' : World} {a : Action} {as : List Action}
    (hr : s.run (a :: as) = some s') : ∃ s₁, Step s a s₁ ∧ s₁.run as = some s' := by
  simp only [World.run] at hr
  split at hr
  · split at hr
    · exact ⟨_, ⟨‹_›, ‹_›⟩, hr⟩
    · cases hr
  · cases hr

/-- A run from a reachable state ends in one. -/
theorem Reachable.run {s s' : World} (h : Reachable s) :
    ∀ (as : List Action), s.run as = some s' → Reachable s'
  | [], hr => by cases hr; exact h
  | _ :: as, hr =>
    let ⟨_, hstep, hr⟩ := World.run_cons hr
    Reachable.run (h.step hstep) as hr

/-! ## Some runs -/

/-- Where the run `as` from the initial state gets to; the initial state if it stops early. -/
def World.after (scan : Bool) (as : List Action) : World :=
  ((World.init scan).run as).getD (World.init scan)

theorem reachable_after {scan : Bool} {as : List Action}
    (h : ((World.init scan).run as).isSome) : Reachable (World.after scan as) := by
  obtain ⟨s', hs'⟩ := Option.isSome_iff_exists.mp h
  rw [World.after, hs']
  exact (Reachable.init scan).run as hs'

/-- The candidate address `192.0.2.5`, port 80, with the resource path `rs`. -/
def addrA (rs : Option String) : ZeroconfAddrinfo :=
  ⟨⟨.inet, [192, 0, 2, 5], rfl⟩, 80, rs, 0, false⟩

/-- The candidate address `192.0.2.6`, port 80. -/
def addrB : ZeroconfAddrinfo := ⟨⟨.inet, [192, 0, 2, 6], rfl⟩, 80, none, 0, false⟩

/-- A successful reply: the capabilities of an A4 platen. -/
def capsReply : Reply := ⟨200, some (.ok ⟨none, none, fun _ => some a4Platen⟩)⟩

/-- The session started, with no configured device. -/
def started : World := World.after false [.managementStart []]

/-- `A` found at `192.0.2.5`: its capability request, message 0, in flight. -/
def probingA : World := World.after false [.managementStart [], .found "A" false [addrA none]]

/-- `A` ready. -/
def readyA : World :=
  World.after false [.managementStart [], .found "A" false [addrA none], .httpComplete 0 capsReply]

/-- `A` ready, then opened once. -/
def openedA : World :=
  World.after false [.managementStart [], .found "A" false [addrA none], .httpComplete 0 capsReply,
    .deviceOpen "A"]

/-- `A` ready, then removed. -/
def removedA : World :=
  World.after false [.managementStart [], .found "A" false [addrA none], .httpComplete 0 capsReply,
    .removed "A"]

/-- A run that leaves a record of each kind: `A` (record 0) halted and held by a handle, `B`
(record 1) probing the first of its two addresses, `C` (record 2) ready. -/
def mixedRun : List Action :=
  [.managementStart [], .found "A" false [addrA none], .httpComplete 0 capsReply, .deviceOpen "A",
    .removed "A", .found "B" false [addrA none, addrB], .found "C" false [addrB],
    .httpComplete 2 capsReply]

/-- Where `mixedRun` gets to. -/
def mixed : World := World.after false mixedRun

/-- `A` found with two addresses, during ZeroConf's initial scan when `scan`. -/
def failoverA (scan : Bool) : World :=
  World.after scan [.managementStart [], .found "A" scan [addrA none, addrB]]

/-- `A` found during ZeroConf's initial scan, which has then finished, `A` still probing. -/
def scanOverA : World :=
  World.after true [.managementStart [], .found "A" true [addrA none], .initScanFinished]

theorem started_reachable : Reachable started := reachable_after rfl

theorem probingA_reachable : Reachable probingA := reachable_after rfl

theorem readyA_reachable : Reachable readyA := reachable_after rfl

theorem openedA_reachable : Reachable openedA := reachable_after rfl

theorem removedA_reachable : Reachable removedA := reachable_after rfl

theorem mixed_reachable : Reachable mixed := reachable_after rfl

theorem failoverA_reachable (scan : Bool) : Reachable (failoverA scan) := by
  cases scan <;> exact reachable_after rfl

theorem scanOverA_reachable : Reachable scanOverA := reachable_after rfl

end AirscanDevice
