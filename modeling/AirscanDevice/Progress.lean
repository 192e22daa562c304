/-
# Probing ends, and the session drains

A record probing its `i`-th address of `n` can still take `n - i` capability replies, the
rank of its phase (`Phase.rank`); `World.probeBudget` sums the ranks of all records.  Every
step that discovers nothing -- anything but `device_management_start` and `device_found` --
keeps the budget or lowers it, and the completion of a request lowers it (`probeBudget_step`,
from `PhaseStep.rank_le` and `Phase.rank_onReply_lt` through the refinement of
`Refinement.lean`).

* `completions_le_probeBudget`: a run without discovery completes at most `probeBudget`
  requests, and spends one unit of the budget on each: probing ends once discovery is quiet;
* `idle_laws`: the session holds no request exactly when the budget is spent, and then every
  listed record is ready and `device_table_ready()` returns true: no record waits without a
  request in flight;
* `drain_idle`: from every reachable state, the session answering its queued requests oldest
  first, with replies `devcaps_parse` can give, never faults and holds no request after at
  most `probeBudget` replies; `drained_wait_iff_scan_over`: the wait of `device_list_get` is
  then over exactly when ZeroConf's initial scan is, however the replies went.

The budget bounds the replies of the records that exist; `device_found` and
`device_management_start` add records, and with them budget.
-/
import AirscanDevice.Refinement
import AirscanDevice.Lifecycle
import AirscanDevice.ProbeUrl
import Mathlib.Algebra.Order.BigOperators.Group.List

namespace AirscanDevice

/-! ## 1. The budget -/

/-- The replies the record can still take: the rank of its phase in its machine. -/
def Device.probeRank (dev : Device) : Nat := dev.phase.rank dev.addrCount

/-- The rank of the record at `d`; a freed record takes no reply. -/
def World.rankAt (s : World) (d : Nat) : Nat := ((s.devs d).map Device.probeRank).getD 0

/-- The replies all records together can still take. -/
def World.probeBudget (s : World) : Nat := ((List.range s.nextDev).map s.rankAt).sum

/-- The steps that create records. -/
def Action.discovers : Action → Bool
  | .managementStart _ => true
  | .found .. => true
  | _ => false

/-- The completion of a queued request. -/
def Action.completes : Action → Bool
  | .httpComplete .. => true
  | _ => false

section Budget

variable {s s' : World} {a : Action} {d : Nat} {dev : Device}

theorem World.rankAt_of_some (h : s.devs d = some dev) : s.rankAt d = dev.probeRank := by
  simp [World.rankAt, h]

theorem World.rankAt_of_none (h : s.devs d = none) : s.rankAt d = 0 := by
  simp [World.rankAt, h]

/-- A listed record that is not ready is probing, and has a reply left. -/
theorem DevOk.probeRank_pos (h : DevOk s d dev) (hl : dev.flags.listed = true)
    (hr : dev.flags.ready = false) : 0 < dev.probeRank := by
  have hh : dev.flags.halted = false := by simpa [h.ok.listed_iff] using hl
  rw [Device.probeRank, Device.phase_of_probing hh hr]
  exact Nat.sub_pos_of_lt (Nat.lt_succ_of_le h.ok.probeIndex_le)

/-- A record with a reply left is listed and not ready. -/
theorem DevOk.probing_of_rank (h : DevOk s d dev) (hpos : 0 < dev.probeRank) :
    dev.flags.listed = true ∧ dev.flags.ready = false := by
  rw [h.ok.listed_iff]
  cases hh : dev.flags.halted <;> cases hr : dev.flags.ready <;>
    simp [Device.probeRank, Device.phase, Phase.rank, hh, hr] at hpos ⊢

end Budget

/-! ## 2. One step -/

section Step

variable {s s' : World} {a : Action} {d : Nat}

/-- No step raises the rank of a record that was there before it. -/
theorem Step.rankAt_le (h : Reachable s) (hstep : Step s a s') (hd : d < s.nextDev) :
    s'.rankAt d ≤ s.rankAt d := by
  cases h' : s'.devs d with
  | none => simp [World.rankAt_of_none h']
  | some y =>
    cases h0 : s.devs d with
    | none => exact absurd (Step.freed h hstep hd h0) (by simp [h'])
    | some dev =>
      have hm := (Step.touches h hstep).devs d y h'
      rw [World.rankAt_of_some h', World.rankAt_of_some h0, Device.probeRank, Device.probeRank,
        Device.addrCount_congr (hm.addresses dev h0)]
      exact (hm.phase dev h0).rank_le

/-- A completion lowers the rank of the record whose request it completes. -/
theorem Step.rankAt_completed {m : Nat} {r : Reply} (h : Reachable s)
    (hstep : Step s (.httpComplete m r) s') : ∃ d < s.nextDev, s'.rankAt d < s.rankAt d := by
  have hs := inv_of_reachable h
  obtain ⟨msg, dev, hmsg, hd, hl, hp⟩ := hs.1.inflight m hstep.1.1
  obtain ⟨hh, hr, -⟩ := (hs.2 _ _ hd).probing_of_pending hl hp
  have hlt := Phase.rank_onReply_lt
    (Nat.lt_succ_of_le (hs.2 _ _ hd).ok.probeIndex_le : dev.probeIndex < dev.addrCount) r.ok
  have hph := (hs.phase_completed hstep.1.1 hstep.1.2 hmsg hd hstep.2).1
  rw [Device.phase_of_probing hh hr] at hph
  refine ⟨msg.dev, hs.1.lt_nextDev hd, ?_⟩
  rw [World.rankAt_of_some hd, Device.probeRank, Device.phase_of_probing hh hr]
  cases h' : s'.devs msg.dev with
  | none => exact (World.rankAt_of_none h').symm ▸ (Nat.zero_le _).trans_lt hlt
  | some y =>
    have hm := (Step.touches h hstep).devs _ y h'
    rw [World.rankAt_of_some h', Device.probeRank, Device.addrCount_congr (hm.addresses dev hd)]
    simp only [World.phase, h', Option.map_some', Option.getD_some] at hph
    rwa [hph]

/-- A step that discovers nothing creates no record. -/
theorem nextDev_step (hs : Inv s) (ha : a.Allowed s) (hq : a.discovers = false) :
    Returns (fun w => w.nextDev = s.nextDev) (exec a { s with out := [] }) := by
  have hs0 : Inv { s with out := [] } := inv_with_out.mpr hs
  cases a with
  | managementStart _ => cases hq
  | found _ _ _ => cases hq
  | managementStop =>
    rw [exec, deviceManagementStop_eq hs0]
    exact rfl
  | removed name =>
    rcases hs0.exec_removed name with h | ⟨d, dev, -, -, h⟩ <;> rw [h]
    · exact rfl
    · exact deleted_nextDev _ _ _
  | initScanFinished => exact rfl
  | httpComplete m r =>
    obtain ⟨msg, dev, hmsg, hd, hl, -⟩ := hs0.1.inflight m ha.1
    rw [exec_httpComplete hmsg hd ha.2]
    have hd2 := replied_devs_self (s := { s with out := [] }) m msg r dev
    refine returns_deviceScannerCapabilitiesCallback hd2
      (fun _ _ _ _ _ => returns_deviceProbeAddress hd2 fun _ _ _ _ _ _ => rfl)
      (fun _ _ _ => ?_) fun _ _ _ _ _ _ => rfl
    rw [deviceDel_eq_ok (s := (({ s with out := [] } : World).replied m msg r dev).emit
      (.capsCallback msg.dev)) hd2 hl
      (hs.fits hd :)]
    exact deleted_nextDev _ _ _
  | httpCancelled m =>
    obtain ⟨msg, hmsg⟩ := Option.ne_none_iff_exists'.mp (hs.1.finishing m ha)
    rw [exec_httpCancelled (s := { s with out := [] }) hmsg]
    exact rfl
  | deviceOpen name =>
    rcases hs0.exec_deviceOpen name with h | ⟨_, _, _, _, _, h⟩ <;> rw [h] <;> exact rfl
  | deviceClose d =>
    obtain ⟨dev, hdev⟩ := Option.ne_none_iff_exists'.mp (hs.1.handles d ha)
    refine returns_deviceUnref hdev (hs.fits hdev) (fun hr => ?_) fun _ => rfl
    have hl := (hs.2 d dev hdev).unlisted_of_last ha hr
    exact ⟨hl, by rw [(hs.2 d dev hdev).ok.halted_eq, hl]; rfl, rfl⟩

/-- **One step and the budget.**  A step from a reachable state that discovers nothing keeps
the budget or lowers it, and lowers it when it completes a request. -/
theorem probeBudget_step (h : Reachable s) (hstep : Step s a s') (hq : a.discovers = false) :
    s'.probeBudget + (if a.completes then 1 else 0) ≤ s.probeBudget := by
  have hn : s'.nextDev = s.nextDev :=
    (nextDev_step (inv_of_reachable h) hstep.1 hq).of_ok hstep.2
  have hle : ∀ d ∈ List.range s.nextDev, s'.rankAt d ≤ s.rankAt d :=
    fun d hd => Step.rankAt_le h hstep (List.mem_range.mp hd)
  unfold World.probeBudget
  rw [hn]
  cases a
  case httpComplete m r =>
    obtain ⟨d, hd, hlt⟩ := Step.rankAt_completed h hstep
    exact List.sum_lt_sum _ _ hle ⟨d, List.mem_range.mpr hd, hlt⟩
  all_goals exact List.sum_le_sum hle

end Step

/-! ## 3. Runs -/

/-- **Probing ends once discovery is quiet.**  Along every run from a reachable state that
neither starts the session nor reports a device, each completed request spends a unit of the
budget: the run completes at most `probeBudget` requests. -/
theorem completions_le_probeBudget {s s' : World} (h : Reachable s) (as : List Action)
    (hq : ∀ a ∈ as, a.discovers = false) (hr : s.run as = some s') :
    as.countP Action.completes + s'.probeBudget ≤ s.probeBudget := by
  induction as generalizing s with
  | nil =>
    cases hr
    simp
  | cons a as ih =>
    obtain ⟨s₁, hstep, hr⟩ := World.run_cons hr
    have h1 := probeBudget_step h hstep (hq a (List.mem_cons_self _ _))
    have h2 := ih (h.step hstep) (fun b hb => hq b (List.mem_cons_of_mem _ hb)) hr
    rw [List.countP_cons]
    omega

theorem completions_le_probeBudget_failover :
    [Action.httpComplete 0 ⟨500, none⟩].countP Action.completes +
        (((failoverA false).run [.httpComplete 0 ⟨500, none⟩]).getD
          (failoverA false)).probeBudget ≤
      (failoverA false).probeBudget :=
  completions_le_probeBudget (failoverA_reachable false) [.httpComplete 0 ⟨500, none⟩]
    (by simp [Action.discovers]) (by rfl)

/-! ## 4. An idle session -/

section Idle

variable {s : World}

/-- With no request in flight, every listed record is ready. -/
theorem Inv.ready_of_idle (hs : Inv s) (hi : s.inflight = []) {d : Nat} {dev : Device}
    (hd : s.devs d = some dev) (hl : dev.flags.listed = true) : dev.flags.ready = true := by
  cases hr : dev.flags.ready
  · obtain ⟨-, m, -, -, hm, -⟩ := (hs.2 d dev hd).probing hl hr
    simp [hi] at hm
  · rfl

theorem Inv.idle_iff (hs : Inv s) : s.inflight = [] ↔ s.probeBudget = 0 := by
  simp only [World.probeBudget, List.sum_eq_zero_iff, List.mem_map, List.mem_range,
    forall_exists_index, and_imp, forall_apply_eq_imp_iff₂]
  constructor
  · intro hi d _
    cases hd : s.devs d with
    | none => exact World.rankAt_of_none hd
    | some dev =>
      rw [World.rankAt_of_some hd]
      refine Nat.eq_zero_of_not_pos fun hpos => ?_
      obtain ⟨hl, hr⟩ := (hs.2 d dev hd).probing_of_rank hpos
      simp [hs.ready_of_idle hi hd hl] at hr
  · intro h0
    refine List.eq_nil_iff_forall_not_mem.mpr fun m hm => ?_
    obtain ⟨msg, dev, -, hd, hl, hp⟩ := hs.1.inflight m hm
    obtain ⟨-, hr, -⟩ := (hs.2 _ _ hd).probing_of_pending hl hp
    have h1 := h0 msg.dev (hs.1.lt_nextDev hd)
    rw [World.rankAt_of_some hd] at h1
    exact absurd h1 ((hs.2 _ _ hd).probeRank_pos hl hr).ne'

theorem Inv.tableReady_of_idle (hs : Inv s) (hi : s.inflight = []) :
    deviceTableReady s = .ok true := by
  rw [deviceTableReady_eq hs.1.tableLive]
  suffices s.collected deviceInitWait = [] by simp [this]
  refine List.eq_nil_iff_forall_not_mem.mpr fun d hd => ?_
  obtain ⟨dev, hdev, hl, hw⟩ := hs.mem_collected.mp hd
  rw [DeviceFlags.initWait_meets,
    (hs.2 d dev hdev).ok.ready_initWait (hs.ready_of_idle hi hdev hl)] at hw
  exact Bool.false_ne_true hw

/-- What an idle session says of the records. -/
structure IdleLaws (s : World) : Prop where
  /-- The session holds no request exactly when no record has a reply left. -/
  idle_iff : s.inflight = [] ↔ s.probeBudget = 0
  /-- Then every listed record is ready, -/
  ready : s.inflight = [] → ∀ d dev, s.devs d = some dev → dev.flags.listed = true →
    dev.flags.ready = true
  /-- and `device_table_ready()` returns true. -/
  tableReady : s.inflight = [] → deviceTableReady s = .ok true

/-- **No record waits without a request in flight.** -/
theorem idle_laws (h : Reachable s) : IdleLaws s :=
  have hs := inv_of_reachable h
  ⟨hs.idle_iff, fun hi _ _ hd hl => hs.ready_of_idle hi hd hl, hs.tableReady_of_idle⟩

theorem idle_laws_readyA : IdleLaws readyA := idle_laws readyA_reachable

end Idle

/-! ## 5. The session drains -/

/-- A reply the session can deliver to a capability request: not the cancellation status,
which only a cancelled request gets, and, when it parses to a capability record, one with a
source, as `devcaps_parse` is trusted to give. -/
def Reply.wellFormed (r : Reply) : Bool :=
  r.status != soupStatusCancelled &&
    match capsResult r with
    | .ok caps => (initialSource caps).isSome
    | .error _ => true

/-- The session answering its queued requests one at a time, the oldest first, each `m`
with `reply m`, until it holds none or `fuel` are answered; `none` once a completion is not a
step. -/
def World.drain (reply : Nat → Reply) : Nat → World → Option World
  | 0, s => some s
  | fuel + 1, s =>
    match s.inflight with
    | [] => some s
    | m :: _ => (s.run [.httpComplete m (reply m)]).bind (World.drain reply fuel)

section Drain

variable {s : World} {d : Nat} {dev : Device}

theorem Reply.status_of_wellFormed {r : Reply} (h : r.wellFormed = true) :
    r.status ≠ soupStatusCancelled := by
  simp only [Reply.wellFormed, Bool.and_eq_true, bne_iff_ne] at h
  exact h.1

/-- `device_probe_address` at an address of the record returns. -/
theorem deviceProbeAddress_ok {i : Nat} (h : s.devs d = some dev)
    (hi : i < dev.addresses.length) : ∃ w, deviceProbeAddress d i s = .ok w := by
  obtain ⟨b, hb, hs, hh, hp⟩ := deviceProbeUrl_base dev.addresses[i]
  simp [deviceProbeAddress, World.deref, h, List.getElem?_eq_getElem hi, hb, deviceHttpGet,
    World.setDev, soupUriNewWithBase_scannerCapabilities hs hh hp]

/-- **A queued request can always complete.**  From a valid state, the completion of a queued
request with a well-formed reply returns: the callback probes the next address, deletes the
record after its last one, or makes it ready, and none of the three faults. -/
theorem exec_httpComplete_ok {m : Nat} {r : Reply} (hs : Inv s) (hm : m ∈ s.inflight)
    (hr : r.wellFormed = true) : ∃ s', exec (.httpComplete m r) s = .ok s' := by
  obtain ⟨msg, dev, hmsg, hd, hl, -⟩ := hs.1.inflight m hm
  rw [exec_httpComplete hmsg hd (Reply.status_of_wellFormed hr)]
  have hd2 := replied_devs_self (s := s) m msg r dev
  have hdel := deviceDel_eq_ok
    (s := (s.replied m msg r dev).emit (.capsCallback msg.dev)) hd2 hl (hs.fits hd :)
  simp only [deviceScannerCapabilitiesCallback, World.deref, hd2, ok_bind]
  cases hc : capsResult r with
  | error e =>
    cases hi : dev.addrCurrent with
    | none =>
      simp only [hi]
      rw [hdel]
      exact ⟨_, rfl⟩
    | some i =>
      by_cases hn : i + 1 < dev.addresses.length
      · obtain ⟨w, hw⟩ := deviceProbeAddress_ok
          (s := (s.replied m msg r dev).emit (.capsCallback msg.dev)) hd2 hn
        simp only [hi, hn, if_true]
        rw [hw]
        exact ⟨_, rfl⟩
      · simp only [hi, hn, if_false]
        rw [hdel]
        exact ⟨_, rfl⟩
  | ok caps =>
    have hw : (initialSource caps).isSome := by
      simp only [Reply.wellFormed, hc, Bool.and_eq_true] at hr
      exact hr.2
    obtain ⟨src, hsrc⟩ := Option.isSome_iff_exists.mp hw
    obtain ⟨opt, ho, -⟩ := deviceSetSource_isSome (initialSource_isSome hsrc)
    simp only [hsrc, ho]
    exact ⟨_, rfl⟩

theorem World.run_step {s' : World} {a : Action} (h : Step s a s') : s.run [a] = some s' := by
  simp [World.run, h.1, h.2]

theorem cancelLoop_initScan (ms : List Nat) (s : World) :
    (cancelLoop ms s).initScan = s.initScan := by
  rw [cancelLoop_frame]

theorem deleted_initScan : (s.deleted d dev).initScan = s.initScan := by
  unfold World.deleted
  split <;> simp [cancelLoop_initScan]

/-- The capability handler leaves ZeroConf's initial scan alone. -/
theorem exec_httpComplete_initScan {m : Nat} {r : Reply} {s' : World} (hs : Inv s)
    (hm : m ∈ s.inflight) (hr : r.status ≠ soupStatusCancelled)
    (he : exec (.httpComplete m r) s = .ok s') : s'.initScan = s.initScan := by
  obtain ⟨msg, dev, hmsg, hd, hl, -⟩ := hs.1.inflight m hm
  have hd2 := replied_devs_self (s := s) m msg r dev
  refine (returns_deviceScannerCapabilitiesCallback (P := fun w => w.initScan = s.initScan) hd2
    (fun _ _ _ _ _ => returns_deviceProbeAddress hd2 fun _ _ _ _ _ _ => rfl) (fun _ _ _ => ?_)
    fun _ _ _ _ _ _ => rfl).of_ok ((exec_httpComplete hmsg hd hr).symm.trans he)
  rw [deviceDel_eq_ok (s := (s.replied m msg r dev).emit (.capsCallback msg.dev)) hd2 hl
      (hs.fits hd :)]
  exact deleted_initScan

/-- The session drains from a reachable state once its fuel covers the budget. -/
theorem drain_of_le (reply : Nat → Reply) (hr : ∀ m, (reply m).wellFormed = true) :
    ∀ n (s : World), Reachable s → s.probeBudget ≤ n →
      ∃ s', s.drain reply n = some s' ∧ Reachable s' ∧ s'.inflight = [] ∧
        s'.initScan = s.initScan
  | 0, s, h, hb => ⟨s, rfl, h, (inv_of_reachable h).idle_iff.mpr (Nat.le_zero.mp hb), rfl⟩
  | n + 1, s, h, hb => by
    cases hi : s.inflight with
    | nil => exact ⟨s, by simp [World.drain, hi], h, hi, rfl⟩
    | cons m ms =>
      have hm : m ∈ s.inflight := by simp [hi]
      have hs0 : Inv { s with out := [] } := inv_with_out (o := []) |>.mpr (inv_of_reachable h)
      obtain ⟨s₁, he⟩ := exec_httpComplete_ok hs0 hm (hr m)
      have hstep : Step s (.httpComplete m (reply m)) s₁ :=
        ⟨⟨hm, Reply.status_of_wellFormed (hr m)⟩, he⟩
      have hb₁ := probeBudget_step h hstep rfl
      obtain ⟨s', hd, h', hi', hsc⟩ := drain_of_le reply hr n s₁ (h.step hstep) (by
        simp only [Action.completes, if_true] at hb₁
        omega)
      refine ⟨s', by simp [World.drain, hi, World.run_step hstep, hd], h', hi', ?_⟩
      rw [hsc, exec_httpComplete_initScan hs0 hm hstep.1.2 he]

/-- **The session drains.**  From every reachable state, the session answering its queued
requests one at a time, the oldest first, with any well-formed replies, never faults, and
after at most `probeBudget` replies holds no request; then `device_table_ready()` is true. -/
theorem drain_idle (h : Reachable s) (reply : Nat → Reply)
    (hr : ∀ m, (reply m).wellFormed = true) :
    ∃ s', s.drain reply s.probeBudget = some s' ∧ Reachable s' ∧ s'.inflight = [] ∧
      deviceTableReady s' = .ok true := by
  obtain ⟨s', hd, h', hi, -⟩ := drain_of_le reply hr _ s h le_rfl
  exact ⟨s', hd, h', hi, (inv_of_reachable h').tableReady_of_idle hi⟩

theorem drain_idle_failover :
    ∃ s', (failoverA true).drain (fun _ => ⟨500, none⟩) (failoverA true).probeBudget = some s' ∧
      Reachable s' ∧ s'.inflight = [] ∧ deviceTableReady s' = .ok true :=
  drain_idle (failoverA_reachable true) _ fun _ => rfl

/-- **Once the session drains, only the initial scan keeps `device_list_get` waiting.**  From
every reachable state, after the session has answered its queued requests as in `drain_idle`,
ZeroConf's initial scan is as it was, and the wait of `device_list_get` is over exactly when
that scan is. -/
theorem drained_wait_iff_scan_over (h : Reachable s) (reply : Nat → Reply)
    (hr : ∀ m, (reply m).wellFormed = true) :
    ∃ s', s.drain reply s.probeBudget = some s' ∧ s'.initScan = s.initScan ∧
      (deviceListWaitDone s' = .ok true ↔ s.initScan = false) := by
  obtain ⟨s', hd, h', hi, hsc⟩ := drain_of_le reply hr _ s h le_rfl
  have hs' := inv_of_reachable h'
  refine ⟨s', hd, hsc, ?_⟩
  rw [hs'.listWaitDone_iff, hsc]
  exact and_iff_left_of_imp fun _ d dev hdev hl =>
    (hs'.2 d dev hdev).ok.ready_initWait (hs'.ready_of_idle hi hdev hl)

theorem drained_wait_iff_scan_over_failover :
    ∃ s', (failoverA true).drain (fun _ => ⟨500, none⟩) (failoverA true).probeBudget = some s' ∧
      s'.initScan = (failoverA true).initScan ∧
      (deviceListWaitDone s' = .ok true ↔ (failoverA true).initScan = false) :=
  drained_wait_iff_scan_over (failoverA_reachable true) _ fun _ => rfl

end Drain

end AirscanDevice
