/-
# Stopping: `soup_session_abort`, then `device_table_purge`

`device_management_stop` aborts the session first: every queued message is cancelled, its
callback with `SOUP_STATUS_CANCELLED` left to run from the main loop, and
`device_http_callback` will leave it in `http_pending`.  The purge
then collects every record of the table, each of which is listed and so meets
`DEVICE_ALL_FLAGS`, and deletes them in key order.  With the session empty each deletion is
`World.deleted` without a message to take back, and deleting the first entry of the table
leaves the rest of it; so the whole stop is the closed form `World.purged`
(`deviceManagementStop_eq`): the table emptied, every record of it halted or freed, and for
each one the events `device_del` emits.  The stopped world satisfies the invariant again
(`Inv.stopped`).
-/
import AirscanDevice.Collect
import AirscanDevice.Preserve

namespace AirscanDevice

open Function (update update_same update_noteq)

/-! ## 1. The closed form -/

/-- What `device_unref` leaves of a record `device_del` has halted: nothing once the table
held the last reference. -/
def Device.afterDel (dev : Device) : Option Device :=
  if dev.refcnt - 1 = 0 then none else some dev.halt

/-- What `device_del` emits for the record `dev` at `d` when the session holds none of its
messages: the deletion, one cancellation per pending message, and the release. -/
def delEvents (d : Nat) (dev : Device) : List Event :=
  .del d :: dev.httpPending.map (fun m => .cancelMessage m false) ++
    (if dev.refcnt - 1 = 0 then [.destroy d] else [])

/-- The world after `device_table_purge` of an aborted session: every record of the table
deleted, in key order. -/
def World.purged (w : World) : World :=
  { w with devs := fun e => if e ∈ w.table.map Prod.snd then (w.devs e).bind Device.afterDel
                            else w.devs e,
           table := [],
           out := w.out ++ w.table.flatMap fun p => ((w.devs p.2).map (delEvents p.2)).getD [] }

/-- `device_del` when the session holds none of the record's messages. -/
theorem deleted_of_inflight_nil {w : World} {d : Nat} {dev : Device} (h : w.inflight = []) :
    w.deleted d dev = { w with devs := update w.devs d dev.afterDel,
                               table := gTreeRemove dev.name w.table,
                               out := w.out ++ delEvents d dev } := by
  unfold World.deleted
  rw [cancelLoop_of_not_mem _ _ fun m _ => by simp [h]]
  unfold Device.afterDel delEvents
  split <;> simp

/-! ## 2. The loop of `device_table_purge` -/

/-- The loop over `devices[0 .. sz - 1]` deletes the collected records in order. -/
theorem deviceDelAll_range' (rest : List (Option Nat)) : ∀ (ids : List Nat)
    (pre : List (Option Nat)) (w : World),
    deviceDelAll (pre ++ ids.map some ++ rest) (List.range' pre.length ids.length) w =
      ids.foldlM (fun w d => deviceDel d w) w
  | [], _, _ => rfl
  | d :: ids, pre, w => by
    have hget : (pre ++ (d :: ids).map some ++ rest).getD pre.length none = some d := by
      rw [List.getD_eq_getElem?_getD, List.append_assoc, List.getElem?_append_right (le_refl _)]
      simp
    have ih := deviceDelAll_range' rest ids (pre ++ [some d])
    simp only [List.length_append, List.length_singleton, List.map_cons, List.append_assoc,
      List.singleton_append] at ih
    simp only [List.length_cons, List.range'_succ, deviceDelAll, hget, List.foldlM_cons]
    simp only [List.map_cons, List.append_assoc, List.cons_append] at ih ⊢
    congr 1
    funext w'
    exact ih w'

/-- Deleting the entries of the table one after another, in key order, from a session that
holds no message. -/
theorem foldlM_deviceDel_purged : ∀ (T : List (String × Nat)) (w : World), w.table = T →
    w.inflight = [] → GTreeSorted T →
    (∀ p ∈ T, ∃ dev, w.devs p.2 = some dev ∧ dev.name = p.1 ∧ dev.flags.listed = true ∧
      0 < dev.refcnt ∧ dev.refcnt < gintMax) →
    (T.map Prod.snd).foldlM (fun w d => deviceDel d w) w = .ok w.purged
  | [], w, ht, _, _, _ => by
    simp only [List.map_nil, List.foldlM_nil]
    congr
    cases w
    simp_all [World.purged]
  | (n, d) :: t, w, ht, hi, hs, he => by
    obtain ⟨dev, hd, hn, hl, hf⟩ := he (n, d) (List.mem_cons_self _ _)
    have hsorted : GTreeSorted t := hs.of_cons
    have hnot : ∀ p ∈ t, p.2 ≠ d := fun p hp hpd => by
      obtain ⟨dev', hd', hn', -⟩ := he p (List.mem_cons_of_mem _ hp)
      rw [hpd, hd] at hd'
      cases hd'
      exact (List.rel_of_pairwise_cons hs hp).ne (hn.symm.trans hn')
    have hdt : d ∉ t.map Prod.snd := fun h => by
      obtain ⟨p, hp, hpd⟩ := List.mem_map.mp h
      exact hnot p hp hpd
    have hw1 : w.deleted d dev = { w with devs := update w.devs d dev.afterDel, table := t,
                                          out := w.out ++ delEvents d dev } := by
      rw [deleted_of_inflight_nil hi, ht, hn]
      simp [gTreeRemove]
    rw [List.map_cons, List.foldlM_cons, deviceDel_eq_ok hd hl hf, ok_bind, hw1,
      foldlM_deviceDel_purged t { w with devs := update w.devs d dev.afterDel, table := t,
                                         out := w.out ++ delEvents d dev } rfl hi hsorted
        fun p hp => by simpa [update_noteq (hnot p hp)] using he p (List.mem_cons_of_mem _ hp)]
    congr 1
    simp only [World.purged, ht, List.map_cons, List.mem_cons, List.flatMap_cons, World.mk.injEq,
      true_and, and_true, List.append_assoc]
    constructor
    · funext e
      by_cases hed : e = d
      · subst hed
        simp [hdt, hd]
      · simp only [hed, false_or, update_noteq hed, ne_eq, not_false_eq_true]
    · simp only [hd, Option.map_some', Option.getD_some]
      refine congrArg (fun x => w.out ++ (delEvents d dev ++ x))
        (List.flatMap_congr fun p hp => ?_)
      rw [update_noteq (hnot p hp)]

/-! ## 3. `device_management_stop` -/

/-- A listed record meets `DEVICE_ALL_FLAGS`. -/
theorem DeviceFlags.all_ne_zero (f : DeviceFlags) (hl : f.listed = true) :
    deviceAllFlags &&& f.word ≠ 0 := by
  obtain ⟨l, r, h, i⟩ := f
  subst hl
  cases r <;> cases h <;> cases i <;> decide

/-- `device_table_collect(DEVICE_ALL_FLAGS, ...)` collects every record of a valid table. -/
theorem WorldOk.collected_all {s : World} (hw : WorldOk s) :
    s.collected deviceAllFlags = s.table.map Prod.snd := by
  refine List.filter_eq_self.mpr fun d hd => ?_
  obtain ⟨p, hp, rfl⟩ := List.mem_map.mp hd
  obtain ⟨dev, h1, -, h3⟩ := hw.entry p.1 p.2 hp
  simpa [World.meets_of_some h1] using DeviceFlags.all_ne_zero _ h3

theorem WorldOk.tableLive {s : World} (hw : WorldOk s) : s.TableLive := fun p hp => by
  obtain ⟨dev, h1, -⟩ := hw.entry p.1 p.2 hp
  simp [h1]

/-- The aborted session of a valid world: nothing queued, and the cancelled messages among
those whose callbacks are due. -/
theorem WorldOk.abort {s : World} (hw : WorldOk s) : WorldOk (soupSessionAbort s) :=
  ⟨hw.devFresh, hw.msgFresh, hw.msgDev, hw.sorted, hw.entry, List.nodup_nil,
    fun _ h => (nomatch h), fun m hm => (List.mem_append.mp hm).elim (hw.finishing m) fun h => by
      obtain ⟨msg, -, h1, -⟩ := hw.inflight m h
      simp [soupSessionAbort, h1], hw.handles, fun _ => ⟨(hw.stopped ‹_›).1, rfl⟩, hw.handlesLe⟩

/-- **`device_management_stop`.**  From a valid world it returns, and the world it returns is
the aborted session with the table purged, and no session. -/
theorem deviceManagementStop_eq {s : World} (hs : Inv s) :
    deviceManagementStop s = .ok { (soupSessionAbort s).purged with running := false } := by
  have hw := hs.1
  have hw' := hw.abort
  have hc := deviceTableCollect_sized hw'.tableLive deviceAllFlags
  rw [hw'.collected_all] at hc
  have hloop := foldlM_deviceDel_purged _ (soupSessionAbort s) rfl rfl hw.sorted fun p hp => by
    obtain ⟨dev, h1, h2, h3⟩ := hw.entry p.1 p.2 hp
    exact ⟨dev, h1, h2, h3, hs.fits h1⟩
  have hrange := deviceDelAll_range' (List.replicate (deviceTableSize (soupSessionAbort s) -
    ((soupSessionAbort s).table.map Prod.snd).length) none) ((soupSessionAbort s).table.map
      Prod.snd) []
  simp only [List.nil_append, List.length_nil] at hrange
  simp only [deviceManagementStop, deviceTablePurge, hc, ok_bind, Option.getD_some,
    List.range_eq_range', hrange, hloop]
  rfl

/-- The stop right after `device_found`: `soup_session_abort` has cancelled the probe of the
record, whose callback, with `SOUP_STATUS_CANCELLED`, has not run yet and would not take it out
of `http_pending` anyway; `device_del` hands it to `soup_session_cancel_message` once more,
when the session no longer holds it. -/
theorem stop_cancels_finished_message :
    ∃ s s', Reachable s ∧ Step s .managementStop s' ∧ 0 ∈ s.inflight ∧
      (∃ dev, s.devs 0 = some dev ∧ dev.httpPending = [0]) ∧
      s'.out = [.del 0, .cancelMessage 0 false, .destroy 0] :=
  ⟨_, _, probingA_reachable, ⟨rfl, rfl⟩, by decide, ⟨_, rfl, rfl⟩, rfl⟩

/-! ## 4. The stopped world -/

/-- A record of a valid table is listed. -/
theorem WorldOk.listed_of_mem {s : World} (hw : WorldOk s) {e : Nat} {dev : Device}
    (he : e ∈ s.table.map Prod.snd) (hd : s.devs e = some dev) : dev.flags.listed = true := by
  obtain ⟨p, hp, rfl⟩ := List.mem_map.mp he
  obtain ⟨dev', h1, -, h3⟩ := hw.entry p.1 p.2 hp
  rw [hd] at h1
  cases h1
  exact h3

/-- **The stopped world is valid**: no table and no session, every record that was listed
halted and held by its handles only, every other record as it was. -/
theorem Inv.stopped {s : World} (hs : Inv s) :
    Inv { (soupSessionAbort s).purged with running := false } := by
  have hw := hs.1
  have hdevs : ∀ e, ({ (soupSessionAbort s).purged with running := false } : World).devs e =
      if e ∈ s.table.map Prod.snd then (s.devs e).bind Device.afterDel else s.devs e :=
    fun _ => rfl
  refine ⟨⟨fun e he => ?_, hw.msgFresh, hw.msgDev, List.Pairwise.nil, fun _ _ h => (nomatch h),
    List.nodup_nil, fun _ h => (nomatch h), hw.abort.finishing, fun e he => ?_,
    fun _ => ⟨rfl, rfl⟩, hw.handlesLe⟩, fun e dev' he => ?_⟩
  · rw [hdevs, hw.devFresh e he]
    simp
  · have he : e ∈ s.handles := he
    obtain ⟨dev, hd⟩ := Option.ne_none_iff_exists'.mp (hw.handles e he)
    rw [hdevs]
    split
    · have hrc := (hs.2 e dev hd).refcnt
      simp only [hw.listed_of_mem ‹_› hd, if_true] at hrc
      have := List.count_pos_iff.mpr he
      simp [hd, Device.afterDel, show dev.refcnt - 1 ≠ 0 by omega]
    · simp [hd]
  · rw [hdevs] at he
    split at he
    · obtain ⟨dev, hd, hdel⟩ := Option.bind_eq_some.mp he
      unfold Device.afterDel at hdel
      split at hdel
      · cases hdel
      · cases hdel
        exact ((hs.2 e dev hd).halt (hw.listed_of_mem ‹_› hd) ‹_›).frame
          (Frame.of_unlisted rfl rfl rfl fun _ _ => rfl)
    · have h := hs.2 e dev' he
      have hl : dev'.flags.listed = false := by
        cases hl : dev'.flags.listed
        · rfl
        · exact absurd (List.mem_map.mpr ⟨_, h.inTable hl, rfl⟩) ‹_›
      exact h.frame (Frame.of_unlisted hl rfl rfl fun _ _ => rfl)

end AirscanDevice
