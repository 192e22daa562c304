/-
# Every reachable state satisfies the invariant

`inv_step`: an allowed step from a valid state returns a valid state, or dies of one of the
benign faults (`Fault.Benign`); so no reachable step fails an assertion of `device_del` or
`device_unref`, dereferences a freed record or overruns a buffer.  `inv_of_reachable` follows
by induction over the run.  Each case of `inv_step` is a spec lemma of `Spec.lean` for the
call and a lemma of `Preserve.lean` or `Purge.lean` for the world it returns.
-/
import AirscanDevice.Purge

namespace AirscanDevice

open Function (update update_same update_noteq)

variable {s : World}

/-! ## 1. Creating a record -/

/-- Queuing overwrites the record `device_add` wrote. -/
theorem added_queued (s : World) (name : String) (x y : Device) (url : SoupUri) :
    (s.added name x).queued s.nextDev y url = (s.added name y).queued s.nextDev y url := by
  simp [World.added, World.queued]

theorem Device.static_ok (name : String) (uri : SoupUri) : (Device.static name uri).Ok :=
  ⟨rfl, fun _ => rfl, fun h => (nomatch h), fun h => (nomatch h), fun _ => rfl, .inl ⟨rfl, rfl⟩,
    rfl⟩

/-- `device_add_static` keeps the invariant of a running system. -/
theorem Inv.addStatic (hs : Inv s) (hrun : s.running = true) (name : String) (uri : SoupUri) :
    Returns (fun w => Inv w ∧ w.running = true) (deviceAddStatic name uri s) := by
  cases hf : deviceFind name s with
  | some d =>
    rw [deviceAddStatic_of_listed hf]
    exact ⟨hs, hrun⟩
  | none =>
    exact returns_deviceAddStatic hf fun url hu =>
      ⟨inv_created hs hrun hf (Device.static_ok name uri) rfl rfl rfl rfl rfl hu, hrun⟩

/-- `device_found` keeps the invariant of a running system. -/
theorem Inv.found (hs : Inv s) (hrun : s.running = true) (name : String) (b : Bool)
    (as : List ZeroconfAddrinfo) : Returns Inv (deviceFound name b as s) := by
  cases hf : deviceFind name s with
  | some d =>
    rw [deviceFound_of_listed hf]
    exact hs
  | none =>
    refine returns_deviceFound hf fun a base url ha hb hu => ?_
    have hne : as ≠ [] := by
      rintro rfl
      simp at ha
    rw [added_queued]
    refine inv_created hs hrun hf ⟨rfl, fun _ => rfl, fun h => (nomatch h), fun h => (nomatch h),
      fun _ => by simp [Device.found], .inr ⟨0, rfl, List.length_pos.mpr hne⟩, ?_⟩ rfl rfl rfl
      rfl rfl ?_
    · simp [Device.probeBase, Device.probeIndex, Device.found, Device.new, hne, ha, hb]
    · simpa [Device.fetchUri, Device.probeBase, Device.found, Device.new, hne, ha, hb] using hu

/-! ## 2. The other calls -/

/-- Dropping a finished cancellation. -/
theorem Inv.eraseFinishing (hs : Inv s) (m : Nat) :
    Inv { s with finishing := s.finishing.erase m } := by
  have hw := hs.1
  refine ⟨⟨hw.devFresh, hw.msgFresh, hw.msgDev, hw.sorted, hw.entry, hw.inflightNodup,
    hw.inflight, fun k hk => hw.finishing k (List.mem_of_mem_erase hk), hw.handles,
    hw.stopped, hw.handlesLe⟩, fun d dev hd => (hs.2 d dev hd).frame
      ⟨rfl, rfl, fun _ _ => rfl, fun _ => id, fun _ _ _ => id⟩⟩

/-- Starting the session on a stopped system. -/
theorem Inv.started (hs : Inv s) (hrun : s.running = false) :
    Inv { s with running := true, inflight := [] } := by
  have hw := hs.1
  have hi := (hw.stopped hrun).2
  refine ⟨⟨hw.devFresh, hw.msgFresh, hw.msgDev, hw.sorted, hw.entry, List.nodup_nil,
    fun _ h => (nomatch h), hw.finishing, hw.handles, fun h => (nomatch h), hw.handlesLe⟩,
    fun d dev hd => (hs.2 d dev hd).frame ⟨rfl, rfl, fun _ _ => rfl, fun _ => id, ?_⟩⟩
  intro _ m _ hm
  rw [hi] at hm
  exact hm

/-- A completion: the callback, whichever way it goes. -/
theorem Inv.completed (hs : Inv s) {m : Nat} {r : Reply} (hm : m ∈ s.inflight)
    (hr : r.status ≠ soupStatusCancelled) : Returns Inv (exec (.httpComplete m r) s) := by
  obtain ⟨msg, dev, hmsg, hd, hl, -⟩ := hs.1.inflight m hm
  rw [exec_httpComplete hmsg hd hr]
  have hd2 := replied_devs_self (s := s) m msg r dev
  refine returns_deviceScannerCapabilitiesCallback hd2 (fun e i hc hi hn => ?_)
    (fun e hc hlast => ?_) fun caps src opt hc hsrc hopt => ?_
  · exact returns_deviceProbeAddress hd2 fun a b url ha hb hu =>
      inv_emit.mpr (inv_probed hs hm hmsg hd (Reply.ok_eq_false hc) hi hn ha hb hu)
  · rw [deviceDel_eq_ok (s := (s.replied m msg r dev).emit (.capsCallback msg.dev)) hd2 hl
      (show 0 < dev.refcnt ∧ dev.refcnt < gintMax from hs.fits hd)]
    exact inv_emit.mpr (inv_failed_last hs hm hmsg hd hlast)
  · exact inv_emit.mpr (inv_readied hs hm hmsg hd hc hsrc hopt)

/-! ## 3. Every step -/

/-- **One step keeps the invariant**: from a valid state, every allowed step returns a valid
state or dies of a benign fault. -/
theorem inv_step (hs : Inv s) {a : Action} (ha : a.Allowed s) :
    Returns Inv (exec a { s with out := [] }) := by
  have hs0 : Inv { s with out := [] } := inv_with_out.mpr hs
  cases a with
  | managementStart conf =>
    refine (returns_foldlM (P := fun w => Inv w ∧ w.running = true)
      (fun w c h => h.1.addStatic h.2 c.name c.uri) conf
      ⟨hs0.started ha, rfl⟩).mono fun _ h => h.1
  | managementStop =>
    rw [exec, deviceManagementStop_eq hs0]
    exact hs0.stopped
  | found name b as => exact hs0.found ha name b as
  | removed name =>
    rcases hs0.exec_removed name with h | ⟨d, dev, hd, hl, h⟩ <;> rw [h]
    · exact hs0
    · exact hs0.deleted hd hl ha
  | initScanFinished => exact inv_emit.mpr (inv_with_initScan.mpr hs0)
  | httpComplete m r => exact hs0.completed ha.1 ha.2
  | httpCancelled m =>
    obtain ⟨msg, hmsg⟩ := Option.ne_none_iff_exists'.mp (hs.1.finishing m ha)
    rw [exec_httpCancelled (s := { s with out := [] }) hmsg]
    exact hs0.eraseFinishing m
  | deviceOpen name =>
    rcases hs0.exec_deviceOpen name with h | ⟨d, dev, -, hd, hr, h⟩
    · rw [h]
      exact hs0
    · rw [h]
      exact hs0.opened hd hr ha
  | deviceClose d => exact hs0.closed ha

/-- **Every reachable state satisfies the invariant.** -/
theorem inv_of_reachable {s : World} (h : Reachable s) : Inv s := by
  induction h with
  | init scan => exact inv_init scan
  | step _ hstep ih => exact (inv_step ih hstep.1).of_ok hstep.2

end AirscanDevice
