/-
# What each operation does to the invariant

One lemma per world the functions of `Device.lean` build, in the order a record lives: a
request queued for it (`World.queued`), the record created (`World.added`), a completion
recorded (`World.replied`), the record made ready (`Device.ready`), deleted
(`World.deleted`), and a handle opened or closed.  Each proves `WorldOk` of the new world and
`DevOk` of the record the operation wrote; every other record keeps its `DevOk` by
`DevOk.frame`, with the `Frame` lemma of the operation.
-/
import AirscanDevice.Invariant
import Mathlib.Data.List.Nodup

namespace AirscanDevice

open Function (update update_same update_noteq)

/-! ## 1. Facts of every valid world -/

section World

variable {s : World} {d e : Nat} {dev : Device} {m : Nat}

theorem mem_fetchIds :
    m ∈ s.fetchIds d ↔ m < s.nextMsg ∧ ∃ msg, s.msgs m = some msg ∧ msg.dev = d :=
  mem_fetchIdsOf

theorem WorldOk.lt_nextDev (hw : WorldOk s) (h : s.devs d = some dev) : d < s.nextDev := by
  by_contra hc
  rw [hw.devFresh d (Nat.le_of_not_lt hc)] at h
  cases h

theorem WorldOk.lt_nextMsg (hw : WorldOk s) {msg : Msg} (h : s.msgs m = some msg) :
    m < s.nextMsg := by
  by_contra hc
  rw [hw.msgFresh m (Nat.le_of_not_lt hc)] at h
  cases h

theorem WorldOk.inflight_lt (hw : WorldOk s) (hm : m ∈ s.inflight) : m < s.nextMsg := by
  obtain ⟨msg, -, h, -⟩ := hw.inflight m hm
  exact hw.lt_nextMsg h

/-- The histories of two records are disjoint. -/
theorem eq_of_mem_fetchIds (hm : m ∈ s.fetchIds d) (hm' : m ∈ s.fetchIds e) : d = e := by
  obtain ⟨-, msg, h, rfl⟩ := mem_fetchIds.mp hm
  obtain ⟨-, msg', h', rfl⟩ := mem_fetchIds.mp hm'
  rw [h] at h'
  cases h'
  rfl

/-- A record has no history before it is allocated. -/
theorem WorldOk.fetchIds_nextDev (hw : WorldOk s) : s.fetchIds s.nextDev = [] := by
  refine List.eq_nil_iff_forall_not_mem.mpr fun m hm => ?_
  obtain ⟨-, msg, h, hd⟩ := mem_fetchIds.mp hm
  exact absurd (hw.msgDev m msg h) (by omega)

theorem WorldOk.handles_lt (hw : WorldOk s) (hd : d ∈ s.handles) : d < s.nextDev := by
  obtain ⟨dev, h⟩ := Option.ne_none_iff_exists'.mp (hw.handles d hd)
  exact hw.lt_nextDev h

theorem WorldOk.emit (hw : WorldOk s) (ev : Event) : WorldOk (s.emit ev) :=
  hw.congr ⟨rfl, rfl, rfl, rfl, rfl, rfl, rfl, rfl, rfl⟩

theorem DevOk.emit (h : DevOk s d dev) (ev : Event) : DevOk (s.emit ev) d dev :=
  h.frame ⟨rfl, rfl, fun _ _ => rfl, fun _ => id, fun _ _ _ => id⟩

/-- A record rewritten in place: same name, same listing, and no pending message dropped. -/
theorem WorldOk.setDev (hw : WorldOk s) {dev0 : Device} (hd : s.devs d = some dev0)
    (hname : dev.name = dev0.name) (hl : dev.flags.listed = dev0.flags.listed)
    (hp : ∀ m ∈ dev0.httpPending, m ∈ dev.httpPending) : WorldOk (s.setDev d dev) := by
  have hlt := hw.lt_nextDev hd
  refine ⟨fun e he => ?_, hw.msgFresh, hw.msgDev, hw.sorted, fun n e h => ?_, hw.inflightNodup,
    fun m hm => ?_, hw.finishing, fun e he => ?_, hw.stopped, hw.handlesLe⟩
  · have he : s.nextDev ≤ e := he
    simp [update_noteq (show e ≠ d by omega), hw.devFresh e he]
  · obtain ⟨dev1, h1, h2, h3⟩ := hw.entry n e h
    by_cases he : e = d
    · subst he
      rw [hd] at h1
      cases h1
      exact ⟨dev, by simp, hname.trans h2, hl.trans h3⟩
    · exact ⟨dev1, by simp [update_noteq he, h1], h2, h3⟩
  · obtain ⟨msg, dev1, h1, h2, h3, h4⟩ := hw.inflight m hm
    by_cases he : msg.dev = d
    · rw [he, hd] at h2
      cases h2
      exact ⟨msg, dev, h1, by simp [he], hl.trans h3, hp m h4⟩
    · exact ⟨msg, dev1, h1, by simp [update_noteq he, h2], h3, h4⟩
  · by_cases h : e = d
    · simp [h]
    · simpa [update_noteq h] using hw.handles e he

/-- A queued message is pending at its record. -/
theorem WorldOk.pending_of_inflight (hw : WorldOk s) {msg : Msg} (hm : m ∈ s.inflight)
    (h1 : s.msgs m = some msg) (h2 : s.devs msg.dev = some dev) : m ∈ dev.httpPending := by
  obtain ⟨msg', dev', h1', h2', -, h4⟩ := hw.inflight m hm
  rw [h1] at h1'
  cases h1'
  rw [h2] at h2'
  cases h2'
  exact h4

theorem WorldOk.running_of_inflight (hw : WorldOk s) (hm : m ∈ s.inflight) : s.running = true := by
  cases hr : s.running
  · exact absurd (hw.stopped hr).2 (List.ne_nil_of_mem hm)
  · rfl

theorem WorldOk.with_handles (hw : WorldOk s) {l : List Nat} (hh : ∀ e ∈ l, s.devs e ≠ none)
    (hlen : l.length ≤ handleLimit) : WorldOk { s with handles := l } :=
  ⟨hw.devFresh, hw.msgFresh, hw.msgDev, hw.sorted, hw.entry, hw.inflightNodup, hw.inflight,
    hw.finishing, hh, hw.stopped, hlen⟩

end World

/-! ## 2. A queued request -/

section Queued

variable {s : World} {d e : Nat} {dev : Device} {url : SoupUri}

theorem fetchIds_queued (e : Nat) :
    (s.queued d dev url).fetchIds e = s.fetchIds e ++ (if d = e then [s.nextMsg] else []) :=
  fetchIdsOf_push s.msgs s.nextMsg _ e

theorem msgs_queued_of_lt {k : Nat} (hk : k < s.nextMsg) : (s.queued d dev url).msgs k = s.msgs k :=
  update_noteq hk.ne _ _

/-- A request for `d` keeps every other record. -/
theorem Frame.queued {dev' : Device} (hne : e ≠ d) : Frame s (s.queued d dev url) e dev' where
  handles := rfl
  fetchIds := by simp [fetchIds_queued, Ne.symm hne]
  msgs := fun _ hm => msgs_queued_of_lt (mem_fetchIds.mp hm).1
  table := fun _ => id
  inflight := fun _ _ _ hm => List.mem_append_left _ hm

theorem WorldOk.queued (hw : WorldOk s) {dev0 : Device} (hd : s.devs d = some dev0)
    (hname : dev.name = dev0.name) (hl : dev.flags.listed = true) (hrun : s.running = true)
    (hp : ∀ m ∈ s.inflight, ∀ msg, s.msgs m = some msg → msg.dev = d → m ∈ dev.httpPending) :
    WorldOk (s.queued d dev url) := by
  have hlt := hw.lt_nextDev hd
  refine ⟨fun e he => ?_, fun m hm => ?_, fun m msg h => ?_, hw.sorted, fun n e h => ?_, ?_,
    fun m hm => ?_, fun m hm => ?_, fun e he => ?_,
    fun h => absurd hrun (by simp [World.queued] at h; simp [h]), hw.handlesLe⟩
  · have he : s.nextDev ≤ e := he
    simp [World.queued, update_noteq (show e ≠ d by omega), hw.devFresh e he]
  · have hm : s.nextMsg + 1 ≤ m := hm
    simp only [World.queued]
    rw [update_noteq (by omega), hw.msgFresh m (by omega)]
  · simp only [World.queued] at h ⊢
    by_cases hm : m = s.nextMsg
    · subst hm
      simp only [update_same, Option.some.injEq] at h
      subst h
      exact hlt
    · exact hw.msgDev m msg (by rwa [update_noteq hm] at h)
  · obtain ⟨dev1, h1, h2, h3⟩ := hw.entry n e h
    simp only [World.queued]
    by_cases he : e = d
    · subst he
      rw [hd] at h1
      cases h1
      exact ⟨_, update_same _ _ _, hname.trans h2, hl⟩
    · exact ⟨dev1, by rw [update_noteq he, h1], h2, h3⟩
  · refine hw.inflightNodup.append (List.nodup_singleton _) fun m hm hm' => ?_
    simp only [List.mem_singleton] at hm'
    exact absurd (hw.inflight_lt hm) (by omega)
  · simp only [World.queued, List.mem_append, List.mem_singleton] at hm ⊢
    rcases hm with hm | rfl
    · obtain ⟨msg, dev1, h1, h2, h3, h4⟩ := hw.inflight m hm
      have hne : m ≠ s.nextMsg := (hw.inflight_lt hm).ne
      by_cases he : msg.dev = d
      · exact ⟨msg, { dev with httpPending := dev.httpPending ++ [s.nextMsg] },
          by rw [update_noteq hne, h1], by rw [he, update_same], hl,
          List.mem_append_left _ (hp m hm msg h1 he)⟩
      · exact ⟨msg, dev1, by rw [update_noteq hne, h1], by rw [update_noteq he, h2], h3, h4⟩
    · exact ⟨_, _, update_same _ _ _, update_same _ _ _, hl, by simp⟩
  · obtain ⟨msg, hmsg⟩ := Option.ne_none_iff_exists'.mp (hw.finishing m hm)
    simp [World.queued, update_noteq (hw.lt_nextMsg hmsg).ne, hmsg]
  · by_cases h : e = d
    · simp [World.queued, h]
    · simpa [World.queued, update_noteq h] using hw.handles e he

/-- The record a request was just queued for, at its current position, every earlier request
having failed. -/
theorem devOk_queued (hok : dev.Ok) (hl : dev.flags.listed = true)
    (hr : dev.flags.ready = false) (hrc : dev.refcnt = 1 + s.handles.count d)
    (hh : s.handles.count d = 0) (ht : (dev.name, d) ∈ s.table) (hp : dev.httpPending = [])
    (huris : (s.fetchIds d).map (fun m => (s.msgs m).map Msg.uri) =
      (List.range dev.probeIndex).map dev.fetchUri)
    (hfailed : ∀ k ∈ s.fetchIds d, ∃ r, s.replyOf k = some r ∧ r.ok = false)
    (hurl : dev.fetchUri dev.probeIndex = some url) :
    DevOk (s.queued d dev url) d { dev with httpPending := dev.httpPending ++ [s.nextMsg] } := by
  have hids : (s.queued d dev url).fetchIds d = s.fetchIds d ++ [s.nextMsg] := by
    simp [fetchIds_queued]
  have hnone : (s.queued d dev url).replyOf s.nextMsg = none := by
    simp [World.replyOf, World.queued]
  refine ⟨hok.with_pending _, by simp [World.queued, hrc, hl],
    show 0 < dev.refcnt by omega, fun _ => ht, ?_, ?_,
    fun _ _ => ⟨_, _, hids, by simp [hp], by simp [World.queued], hnone⟩,
    fun h => absurd h (by simp [hr]), ?_, fun _ _ => hh⟩
  · rw [hids, List.map_append, List.map_congr_left fun k hk => by
      rw [msgs_queued_of_lt (mem_fetchIds.mp hk).1], huris]
    show _ = List.map dev.fetchUri (List.range (dev.probeIndex + 1))
    simp [List.range_succ, World.queued, hurl]
  · intro ids m h k hk
    obtain ⟨rfl, rfl⟩ := snoc_inj (hids.symm.trans h)
    simpa [World.replyOf, msgs_queued_of_lt (mem_fetchIds.mp hk).1] using hfailed k hk
  · intro ids m r h hm _
    obtain ⟨rfl, rfl⟩ := snoc_inj (hids.symm.trans h)
    rw [hnone] at hm
    cases hm

end Queued

/-! ## 3. A new record -/

section Added

variable {s : World} {name : String} {dev : Device} {url : SoupUri}

theorem WorldOk.added (hw : WorldOk s) (hf : deviceFind name s = none) (hname : dev.name = name)
    (hl : dev.flags.listed = true) (hrun : s.running = true) : WorldOk (s.added name dev) := by
  refine ⟨fun e he => ?_, hw.msgFresh, fun m msg h => Nat.lt_succ_of_lt (hw.msgDev m msg h),
    gTreeSorted_insert hw.sorted, fun n e h => ?_, hw.inflightNodup, fun m hm => ?_,
    hw.finishing, fun e he => ?_, fun h => absurd hrun (by simp [World.added] at h; simp [h]),
    hw.handlesLe⟩
  · have he : s.nextDev + 1 ≤ e := he
    simp [World.added, update_noteq (show e ≠ s.nextDev by omega), hw.devFresh e (by omega)]
  · rcases (mem_gTreeInsert hf).mp h with h | h
    · simp only [Prod.mk.injEq] at h
      obtain ⟨rfl, rfl⟩ := h
      exact ⟨dev, update_same _ _ _, hname, hl⟩
    · obtain ⟨dev1, h1, h2, h3⟩ := hw.entry n e h
      exact ⟨dev1, by simp [World.added, update_noteq (hw.lt_nextDev h1).ne, h1], h2, h3⟩
  · obtain ⟨msg, dev1, h1, h2, h3, h4⟩ := hw.inflight m hm
    exact ⟨msg, dev1, h1, by simp [World.added, update_noteq (hw.lt_nextDev h2).ne, h2], h3, h4⟩
  · simpa [World.added, update_noteq (hw.handles_lt he).ne] using hw.handles e he

/-- Creating a record keeps every other. -/
theorem Frame.added (hf : deviceFind name s = none) {e : Nat} {dev' : Device} :
    Frame s (s.added name dev) e dev' where
  handles := rfl
  fetchIds := rfl
  msgs := fun _ _ => rfl
  table := fun _ h => (mem_gTreeInsert hf).mpr (Or.inr h)
  inflight := fun _ _ _ => id

/-- `device_found` and `device_add_static`: a new listed record, probing at position `0`. -/
theorem inv_created (hs : Inv s) (hrun : s.running = true) (hf : deviceFind name s = none)
    (hok : dev.Ok) (hname : dev.name = name)
    (hflags : dev.flags = ⟨true, false, false, dev.flags.initWait⟩) (hrc : dev.refcnt = 1)
    (hp : dev.httpPending = []) (hi : dev.probeIndex = 0) (hurl : dev.fetchUri 0 = some url) :
    Inv ((s.added name dev).queued s.nextDev dev url) := by
  have hw := hs.1
  have hl : dev.flags.listed = true := by rw [hflags]
  have hr : dev.flags.ready = false := by rw [hflags]
  have hd1 : (s.added name dev).devs s.nextDev = some dev := update_same _ _ _
  refine ⟨(hw.added hf hname hl hrun).queued hd1 rfl hl hrun
    fun m _ msg h he => absurd (hw.msgDev m msg h) (by omega), fun e dev' he => ?_⟩
  by_cases hne : e = s.nextDev
  · subst hne
    simp only [World.queued, update_same, Option.some.injEq] at he
    subst he
    have hcount : s.handles.count s.nextDev = 0 :=
      List.count_eq_zero.mpr fun h => absurd (hw.handles_lt h) (lt_irrefl _)
    refine devOk_queued hok hl hr ?_ hcount ((mem_gTreeInsert hf).mpr (Or.inl (by rw [hname])))
      hp ?_ ?_ (by rw [hi]; exact hurl)
    · simp [World.added, hrc, hcount]
    · rw [hi]
      exact congrArg _ hw.fetchIds_nextDev
    · intro k hk
      exact absurd hk (by rw [show (s.added name dev).fetchIds s.nextDev = [] from
        hw.fetchIds_nextDev]; simp)
  · have he' : s.devs e = some dev' := by
      simpa [World.queued, World.added, update_noteq hne] using he
    exact ((hs.2 e dev' he').frame (Frame.added hf)).frame (Frame.queued hne)

end Added

/-! ## 4. A deleted record -/

section Deleted

variable {s : World} {d : Nat} {dev : Device}

/-- The record `device_del` leaves, while a handle still holds it. -/
theorem devOk_halt (hok : dev.Ok) (hrc : dev.refcnt = 1 + s.handles.count d)
    (hpos : dev.refcnt - 1 ≠ 0)
    (huris : (s.fetchIds d).map (fun m => (s.msgs m).map Msg.uri) =
      (List.range (dev.probeIndex + 1)).map dev.fetchUri)
    (hfailed : ∀ ids m, s.fetchIds d = ids ++ [m] → ∀ k ∈ ids,
      ∃ r, s.replyOf k = some r ∧ r.ok = false)
    (hlast : ∀ ids m r, s.fetchIds d = ids ++ [m] → s.replyOf m = some r → r.ok = false →
      dev.probeIndex = dev.lastIndex) :
    DevOk s d dev.halt :=
  ⟨⟨rfl, fun _ => rfl, fun h => absurd h (by simp [Device.halt]),
    fun h => absurd h (by simp [Device.halt]), fun h => absurd h (by simp [Device.halt]),
    hok.cursor, hok.base⟩, by simp only [Device.halt, hrc, Bool.false_eq_true, if_false]; omega,
    show 0 < dev.refcnt - 1 by omega,
    fun h => absurd h (by simp [Device.halt]), huris, hfailed,
    fun h => absurd h (by simp [Device.halt]), fun h => absurd h (by simp [Device.halt]),
    fun ids m r h1 h2 h3 => ⟨rfl, hlast ids m r h1 h2 h3⟩,
    fun h => absurd h (by simp [Device.halt])⟩

/-- A listed record deleted from a valid world: its last request has not failed. -/
theorem DevOk.halt (h : DevOk s d dev) (hl : dev.flags.listed = true) (hpos : dev.refcnt - 1 ≠ 0) :
    DevOk s d dev.halt :=
  devOk_halt h.ok (by simpa [hl] using h.refcnt) hpos h.fetchUris h.failed
    fun _ _ _ hids hr hok => absurd (h.last_not_failed hl hids hr) (by simp [hok])

/-- Deleting a record keeps every other. -/
theorem Frame.deleted (hw : WorldOk s) (ht : (dev.name, d) ∈ s.table)
    (hp : ∀ m ∈ dev.httpPending, m ∈ s.fetchIds d) {e : Nat} {dev' : Device} (hne : e ≠ d) :
    Frame s (s.deleted d dev) e dev' where
  handles := by simp
  fetchIds := by simp [World.fetchIds]
  msgs := fun _ _ => by simp
  table := fun _ h => by
    rw [deleted_table]
    refine (mem_gTreeRemove hw.sorted).mpr ⟨h, fun hn => hne ?_⟩
    rw [show dev'.name = dev.name from hn] at h
    exact hw.sorted.val_eq h ht
  inflight := fun _ k hk hin => by
    rw [deleted_inflight]
    refine (nodup_foldl_erase hw.inflightNodup _).2 k |>.mpr ⟨hin, fun hkp => hne ?_⟩
    exact eq_of_mem_fetchIds hk (hp k hkp)

/-- `device_del` on a listed record, from a world whose other records are valid and whose
record `d` gives a valid halted record. -/
theorem inv_deleted (hw : WorldOk s) (ho : ∀ e dev', e ≠ d → s.devs e = some dev' → DevOk s e dev')
    (h : s.devs d = some dev) (ht : (dev.name, d) ∈ s.table)
    (hrc : dev.refcnt = 1 + s.handles.count d) (hp : ∀ m ∈ dev.httpPending, m ∈ s.fetchIds d)
    (hrun : s.running = true) (hhalt : dev.refcnt - 1 ≠ 0 → DevOk s d dev.halt) :
    Inv (s.deleted d dev) := by
  have hlt := hw.lt_nextDev h
  refine ⟨⟨fun e he => ?_, by simpa using hw.msgFresh, by simpa using hw.msgDev,
    by simpa using gTreeSorted_remove hw.sorted, fun n e he => ?_,
    by simpa using (nodup_foldl_erase hw.inflightNodup _).1, fun k hk => ?_, fun k hk => ?_,
    fun e he => ?_, fun h => absurd hrun (by simp at h; simp [h]), by simpa using hw.handlesLe⟩,
    fun e dev' he => ?_⟩
  · simp only [deleted_nextDev] at he
    simp [update_noteq (show e ≠ d by omega), hw.devFresh e he]
  · simp only [deleted_table, mem_gTreeRemove hw.sorted] at he
    obtain ⟨dev1, h1, h2, h3⟩ := hw.entry n e he.1
    have hne : e ≠ d := by
      rintro rfl
      rw [h] at h1
      cases h1
      exact he.2 h2.symm
    exact ⟨dev1, by simp [update_noteq hne, h1], h2, h3⟩
  · simp only [deleted_inflight, (nodup_foldl_erase hw.inflightNodup _).2] at hk
    obtain ⟨msg, dev1, h1, h2, h3, h4⟩ := hw.inflight k hk.1
    have hne : msg.dev ≠ d := by
      rintro hd
      rw [hd, h] at h2
      cases h2
      exact hk.2 h4
    exact ⟨msg, dev1, by simpa using h1, by simp [update_noteq hne, h2], h3, h4⟩
  · rw [deleted_msgs]
    rcases deleted_finishing s d dev k hk with hk | hk
    · exact hw.finishing k hk
    · obtain ⟨msg, -, h1, -⟩ := hw.inflight k hk
      simp [h1]
  · simp only [deleted_handles] at he
    by_cases hed : e = d
    · subst hed
      have : s.handles.count e ≠ 0 := List.count_eq_zero.not.mpr (not_not.mpr he)
      simp [show dev.refcnt - 1 ≠ 0 by omega]
    · simpa [update_noteq hed] using hw.handles e he
  · simp only [deleted_devs] at he
    by_cases hed : e = d
    · subst hed
      by_cases hr : dev.refcnt - 1 = 0
      · simp [hr] at he
      · simp only [hr, if_false, update_same, Option.some.injEq] at he
        subst he
        exact (hhalt hr).frame (Frame.of_unlisted rfl (by simp) (by simp [World.fetchIds])
          fun _ _ => by simp)
    · exact (ho e dev' hed (by simpa [update_noteq hed] using he)).frame
        (Frame.deleted hw ht hp hed)

/-- `device_removed`: deleting a listed record of a valid world. -/
theorem Inv.deleted (hs : Inv s) (h : s.devs d = some dev) (hl : dev.flags.listed = true)
    (hrun : s.running = true) : Inv (s.deleted d dev) :=
  have hd := hs.2 d dev h
  inv_deleted hs.1 (fun e dev' _ he => hs.2 e dev' he) h (hd.inTable hl)
    (by simpa [hl] using hd.refcnt) (fun m hm => (hd.pending_mem hl m hm).1) hrun
    (hd.halt hl)

end Deleted

/-! ## 5. A completion -/

section Replied

variable {s : World} {m : Nat} {msg : Msg} {r : Reply} {dev : Device}

/-- The record of a queued message is listed and probing, the message its only pending one
and the last of its history. -/
theorem Inv.completing (hs : Inv s) (hm : m ∈ s.inflight) (hmsg : s.msgs m = some msg)
    (hd : s.devs msg.dev = some dev) :
    DevOk s msg.dev dev ∧ dev.flags.listed = true ∧ dev.flags.ready = false ∧
      dev.httpPending = [m] ∧ ∃ ids, s.fetchIds msg.dev = ids ++ [m] ∧ s.replyOf m = none := by
  have h := hs.2 _ _ hd
  have hp := hs.1.pending_of_inflight hm hmsg hd
  obtain ⟨msg', dev', h1, h2, hl, -⟩ := hs.1.inflight m hm
  rw [hmsg] at h1
  cases h1
  rw [hd] at h2
  cases h2
  obtain ⟨-, hr, hpm⟩ := h.probing_of_pending hl hp
  obtain ⟨ids, m', hids, hp', -, hnone⟩ := h.probing hl hr
  obtain rfl := List.singleton_inj.mp (hpm.symm.trans hp')
  exact ⟨h, hl, hr, hpm, ids, hids, hnone⟩

theorem fetchIds_replied (hmsg : s.msgs m = some msg) (e : Nat) :
    (s.replied m msg r dev).fetchIds e = s.fetchIds e :=
  fetchIdsOf_update_same_dev hmsg (rfl : ({ msg with reply := some r } : Msg).dev = msg.dev) _ _

theorem replyOf_replied_self : (s.replied m msg r dev).replyOf m = some r := by
  simp [World.replyOf, World.replied]

theorem replyOf_replied_of_ne {k : Nat} (hk : k ≠ m) :
    (s.replied m msg r dev).replyOf k = s.replyOf k := by
  simp [World.replyOf, World.replied, update_noteq hk]

theorem uri_replied (hmsg : s.msgs m = some msg) (k : Nat) :
    ((s.replied m msg r dev).msgs k).map Msg.uri = (s.msgs k).map Msg.uri := by
  by_cases hk : k = m
  · subst hk
    simp [World.replied, hmsg]
  · simp [World.replied, update_noteq hk]

/-- Recording a completion keeps every other record. -/
theorem Frame.replied (hmsg : s.msgs m = some msg) {e : Nat} {dev' : Device} (hne : e ≠ msg.dev) :
    Frame s (s.replied m msg r dev) e dev' where
  handles := rfl
  fetchIds := fetchIds_replied hmsg e
  msgs := fun k hk => by
    have hkm : k ≠ m := by
      rintro rfl
      obtain ⟨-, msg', h', rfl⟩ := mem_fetchIds.mp hk
      rw [hmsg] at h'
      cases h'
      exact hne rfl
    simp [World.replied, update_noteq hkm]
  table := fun _ => id
  inflight := fun _ k hk hin => (List.mem_erase_of_ne fun hkm => hne (by
    subst hkm
    obtain ⟨-, msg', h', rfl⟩ := mem_fetchIds.mp hk
    rw [hmsg] at h'
    cases h'
    rfl)).mpr hin

theorem WorldOk.replied (hw : WorldOk s) (hm : m ∈ s.inflight) (hmsg : s.msgs m = some msg)
    (hd : s.devs msg.dev = some dev) (hp : dev.httpPending = [m]) :
    WorldOk (s.replied m msg r dev) := by
  have hlt := hw.lt_nextDev hd
  have hmlt := hw.inflight_lt hm
  refine ⟨fun e he => ?_, fun k hk => ?_, fun k msg' h => ?_, hw.sorted, fun n e h => ?_,
    hw.inflightNodup.erase m, fun k hk => ?_, fun k hk => ?_, fun e he => ?_,
    fun h => absurd (hw.stopped h).2 (List.ne_nil_of_mem hm), hw.handlesLe⟩
  · have he : s.nextDev ≤ e := he
    simp [World.replied, update_noteq (show e ≠ msg.dev by omega), hw.devFresh e he]
  · have hk : s.nextMsg ≤ k := hk
    simp [World.replied, update_noteq (show k ≠ m by omega), hw.msgFresh k hk]
  · by_cases hk : k = m
    · subst hk
      simp only [World.replied, update_same, Option.some.injEq] at h
      subst h
      exact hw.msgDev _ msg hmsg
    · exact hw.msgDev k msg' (by simpa [World.replied, update_noteq hk] using h)
  · obtain ⟨dev1, h1, h2, h3⟩ := hw.entry n e h
    by_cases he : e = msg.dev
    · subst he
      rw [hd] at h1
      cases h1
      exact ⟨_, replied_devs_self m msg r dev, h2, h3⟩
    · exact ⟨dev1, by simp [World.replied, update_noteq he, h1], h2, h3⟩
  · obtain ⟨hkm, hk⟩ := hw.inflightNodup.mem_erase_iff.mp hk
    obtain ⟨msg', dev1, h1, h2, h3, h4⟩ := hw.inflight k hk
    by_cases he : msg'.dev = msg.dev
    · rw [he, hd] at h2
      cases h2
      rw [hp] at h4
      exact absurd (List.mem_singleton.mp h4) hkm
    · exact ⟨msg', dev1, by simp [World.replied, update_noteq hkm, h1],
        by simp [World.replied, update_noteq he, h2], h3, h4⟩
  · by_cases hkm : k = m
    · simp [World.replied, hkm]
    · simpa [World.replied, update_noteq hkm] using hw.finishing k hk
  · by_cases h : e = msg.dev
    · simp [World.replied, h]
    · simpa [World.replied, update_noteq h] using hw.handles e he

/-- The record's request history in the world the callback gets: unchanged, its last entry
now answered with `r`. -/
theorem Inv.replied_history (hs : Inv s) (hm : m ∈ s.inflight) (hmsg : s.msgs m = some msg)
    (hd : s.devs msg.dev = some dev) : ∃ ids,
    (s.replied m msg r dev).fetchIds msg.dev = ids ++ [m] ∧
    ((s.replied m msg r dev).fetchIds msg.dev).map
        (fun k => ((s.replied m msg r dev).msgs k).map Msg.uri) =
      (List.range (dev.probeIndex + 1)).map dev.fetchUri ∧
    (∀ k ∈ ids, ∃ r', (s.replied m msg r dev).replyOf k = some r' ∧ r'.ok = false) ∧
    (s.replied m msg r dev).replyOf m = some r := by
  obtain ⟨h, -, -, -, ids, hids, -⟩ := hs.completing hm hmsg hd
  have hnd : m ∉ ids := by
    have := fetchIdsOf_nodup s.msgs s.nextMsg msg.dev
    rw [World.fetchIds] at hids
    rw [hids] at this
    exact fun hm' => List.disjoint_of_nodup_append this hm' (List.mem_singleton_self m)
  refine ⟨ids, (fetchIds_replied hmsg _).trans hids, ?_, fun k hk => ?_, replyOf_replied_self⟩
  · rw [fetchIds_replied hmsg, ← h.fetchUris]
    exact List.map_congr_left fun k _ => uri_replied hmsg k
  · have hkm : k ≠ m := fun hkm => hnd (hkm ▸ hk)
    rw [replyOf_replied_of_ne hkm]
    exact h.failed ids m hids k hk

end Replied

/-! ## 6. The three outcomes of the capability callback -/

section Callback

variable {s : World} {m : Nat} {msg : Msg} {r : Reply} {dev : Device}

theorem Device.fetchUri_eq_of_ne_nil {dev' : Device} (ha : dev'.addresses = dev.addresses)
    (hne : dev.addresses ≠ []) : dev'.fetchUri = dev.fetchUri := by
  funext j
  simp [Device.fetchUri, Device.probeBase, ha, hne]

/-- A failure before the last address: the next one is probed. -/
theorem inv_probed (hs : Inv s) (hm : m ∈ s.inflight) (hmsg : s.msgs m = some msg)
    (hd : s.devs msg.dev = some dev) (hfail : r.ok = false) {i : Nat} {a : ZeroconfAddrinfo}
    {b url : SoupUri} (hi : dev.addrCurrent = some i) (hn : i + 1 < dev.addresses.length)
    (ha : dev.addresses[i + 1]? = some a) (hb : soupUriNew (deviceProbeUrl a) = some b)
    (hu : soupUriNewWithBase (some b) "ScannerCapabilities" = some url) :
    Inv (((s.replied m msg r dev).emit (.capsCallback msg.dev)).queued msg.dev
      { dev with httpPending := dev.httpPending.erase m, addrCurrent := some (i + 1),
                 baseUrl := some b } url) := by
  obtain ⟨h, hl, hr, hp, -⟩ := hs.completing hm hmsg hd
  obtain ⟨ids, hids, huris, hfailed, hreply⟩ := hs.replied_history (r := r) hm hmsg hd
  have hw2 := (hs.1.replied (r := r) hm hmsg hd hp).emit (.capsCallback msg.dev)
  have hne : dev.addresses ≠ [] := List.ne_nil_of_length_pos (by omega)
  have hd2 : ((s.replied m msg r dev).emit (.capsCallback msg.dev)).devs msg.dev =
      some { dev with httpPending := dev.httpPending.erase m } := replied_devs_self m msg r dev
  refine ⟨hw2.queued hd2 rfl hl (hs.1.running_of_inflight hm)
    fun k hk msg' h1 h2 => absurd (hw2.pending_of_inflight hk h1 (h2 ▸ hd2)) (by simp [hp]),
    fun e dev' he => ?_⟩
  by_cases hed : e = msg.dev
  · subst hed
    simp only [World.queued, update_same, Option.some.injEq] at he
    subst he
    have hf : Device.fetchUri { dev with httpPending := dev.httpPending.erase m,
                                         addrCurrent := some (i + 1), baseUrl := some b } =
        dev.fetchUri :=
      Device.fetchUri_eq_of_ne_nil rfl hne
    refine devOk_queued ⟨h.ok.1, h.ok.2, h.ok.3, h.ok.4, h.ok.5, Or.inr ⟨i + 1, rfl, hn⟩, ?_⟩ hl hr
      (by simpa [hl] using h.refcnt) (h.handled hl hr) (h.inTable hl) (by simp [hp]) ?_ ?_ ?_
    · simp [Device.probeBase, Device.probeIndex, hne, ha, hb]
    · rw [hf]
      refine huris.trans ?_
      simp [Device.probeIndex, hi]
    · intro k hk
      change k ∈ (s.replied m msg r dev).fetchIds msg.dev at hk
      rw [hids, List.mem_append, List.mem_singleton] at hk
      rcases hk with hk | rfl
      · exact hfailed k hk
      · exact ⟨r, hreply, hfail⟩
    · simp [Device.fetchUri, Device.probeBase, Device.probeIndex, hne, ha, hb, hu]
  · have he' : s.devs e = some dev' := by
      simpa [World.queued, World.replied, update_noteq hed] using he
    exact (((hs.2 e dev' he').frame (Frame.replied hmsg hed)).emit _).frame (Frame.queued hed)

/-- A failure at the last address: the device is deleted. -/
theorem inv_failed_last (hs : Inv s) (hm : m ∈ s.inflight) (hmsg : s.msgs m = some msg)
    (hd : s.devs msg.dev = some dev)
    (hlast : ∀ i, dev.addrCurrent = some i → dev.addresses.length ≤ i + 1) :
    Inv (((s.replied m msg r dev).emit (.capsCallback msg.dev)).deleted msg.dev
      { dev with httpPending := dev.httpPending.erase m }) := by
  obtain ⟨h, hl, -, hp, -⟩ := hs.completing hm hmsg hd
  obtain ⟨ids, hids, huris, hfailed, hreply⟩ := hs.replied_history (r := r) hm hmsg hd
  have hw2 := (hs.1.replied (r := r) hm hmsg hd hp).emit (.capsCallback msg.dev)
  have hrc : dev.refcnt = 1 + s.handles.count msg.dev := by simpa [hl] using h.refcnt
  refine inv_deleted hw2 (fun e dev' hed he => ?_) (by simp [World.replied]) (h.inTable hl) hrc
    (by simp [hp]) (hs.1.running_of_inflight hm) fun hpos =>
      devOk_halt (h.ok.with_pending _) hrc hpos huris (fun ids' m' h' k hk => ?_)
        fun ids' m' r' h' hr' hok' => ?_
  · exact ((hs.2 e dev' (by simpa [World.replied, update_noteq hed] using he)).frame
      (Frame.replied hmsg hed)).emit _
  · obtain ⟨rfl, rfl⟩ := snoc_inj (hids.symm.trans h')
    exact hfailed k hk
  · obtain ⟨rfl, rfl⟩ := snoc_inj (hids.symm.trans h')
    rcases h.ok.cursor with ⟨ha, hc⟩ | ⟨i, hc, hi⟩
    · simp [Device.probeIndex, Device.lastIndex, ha, hc]
    · have := hlast i hc
      simp only [Device.probeIndex, Device.lastIndex, hc, Option.getD_some]
      omega

/-- A success: the device is ready. -/
theorem inv_readied (hs : Inv s) (hm : m ∈ s.inflight) (hmsg : s.msgs m = some msg)
    (hd : s.devs msg.dev = some dev) {caps : Devcaps} {src : OptSource} {opt : DeviceOpts}
    (hc : capsResult r = .ok caps) (hsrc : initialSource caps = some src)
    (hopt : deviceSetSource caps src = some opt) :
    Inv (((s.replied m msg r dev).emit (.capsCallback msg.dev)).setDev msg.dev
      ({ dev with httpPending := dev.httpPending.erase m }.ready caps opt)) := by
  obtain ⟨h, hl, -, hp, -⟩ := hs.completing hm hmsg hd
  obtain ⟨ids, hids, huris, hfailed, hreply⟩ := hs.replied_history (r := r) hm hmsg hd
  have hw2 := (hs.1.replied (r := r) hm hmsg hd hp).emit (.capsCallback msg.dev)
  have hd2 : ((s.replied m msg r dev).emit (.capsCallback msg.dev)).devs msg.dev =
      some { dev with httpPending := dev.httpPending.erase m } := replied_devs_self m msg r dev
  have hok : Reply.ok r = true := Reply.ok_eq_true hc
  refine ⟨hw2.setDev hd2 rfl rfl fun _ => id, fun e dev' he => ?_⟩
  by_cases hed : e = msg.dev
  · subst hed
    simp only [World.setDev, update_same, Option.some.injEq] at he
    subst he
    have hsrc' := deviceSetSource_src hopt
    refine ⟨⟨by simpa [Device.ready] using h.ok.1, fun h' => absurd h' (by simp [Device.ready,
      h.ok.halted_eq, hl]), fun _ => rfl, fun _ => ⟨src, hsrc', initialSource_isSome hsrc⟩,
      fun _ => by simp [Device.ready], h.ok.cursor, h.ok.base⟩,
      by simpa [hl, Device.ready, World.replied] using h.refcnt,
      h.alive, fun _ => h.inTable hl, huris, fun ids' m' h' k hk => ?_, fun _ h' => ?_,
      fun _ => ⟨by simp [Device.ready, hp], ids, m, r, hids, hreply, hok⟩,
      fun ids' m' r' h' hr' hok' => ?_, fun _ h' => absurd h' (by simp [Device.ready])⟩
    · obtain ⟨rfl, rfl⟩ := snoc_inj (hids.symm.trans h')
      exact hfailed k hk
    · simp [Device.ready] at h'
    · obtain ⟨rfl, rfl⟩ := snoc_inj (hids.symm.trans h')
      cases hreply.symm.trans hr'
      simp [hok] at hok'
  · have he' : s.devs e = some dev' := by
      simpa [World.replied, update_noteq hed] using he
    have hf : Frame s (s.replied m msg r dev) e dev' := Frame.replied hmsg hed
    exact (((hs.2 e dev' he').frame hf).emit (.capsCallback msg.dev)).frame
      ⟨rfl, rfl, fun _ _ => rfl, fun _ => id, fun _ _ _ => id⟩

end Callback

/-! ## 7. Handles -/

section Handles

variable {s : World} {d : Nat} {dev : Device}

/-- `device_open` from a valid world. -/
theorem Inv.exec_deviceOpen (hs : Inv s) (name : String) :
    exec (.deviceOpen name) s = .ok s ∨ ∃ d dev, (name, d) ∈ s.table ∧ s.devs d = some dev ∧
      dev.flags.ready = true ∧ exec (.deviceOpen name) s =
        .ok { s.setDev d { dev with refcnt := dev.refcnt + 1 } with
              handles := d :: s.handles } :=
  AirscanDevice.exec_deviceOpen hs.1.sorted (fun d hd => by
    obtain ⟨dev, h, -⟩ := hs.1.entry name d hd
    rw [h]
    exact Option.some_ne_none _) fun _ _ => hs.fits

/-- `device_removed` from a valid world: nothing, or `device_del` of the listed record of the
name. -/
theorem Inv.exec_removed (hs : Inv s) (name : String) :
    exec (.removed name) s = .ok s ∨ ∃ d dev, s.devs d = some dev ∧ dev.flags.listed = true ∧
      exec (.removed name) s = .ok (s.deleted d dev) := by
  cases hf : deviceFind name s with
  | none => exact .inl (by simp [exec, deviceRemoved, hf])
  | some d =>
    obtain ⟨dev, hd, -, hl⟩ := hs.1.entry name d ((deviceFind_eq_some_iff hs.1.sorted).mp hf)
    exact .inr ⟨d, dev, hd, hl, by
      simp only [exec, deviceRemoved, hf, deviceDel_eq_ok hd hl (hs.fits hd)]⟩

/-- Another record's handles are not counted. -/
theorem Frame.handles_cons {e : Nat} {dev' : Device} (hne : e ≠ d) :
    Frame s { s.setDev d dev with handles := d :: s.handles } e dev' :=
  ⟨by simp [List.count_cons, Ne.symm hne], rfl, fun _ _ => rfl, fun _ => id, fun _ _ _ => id⟩

/-- `device_open` of the record at `d`, below the bound on handles: a reference and a handle
more. -/
theorem Inv.opened (hs : Inv s) (hd : s.devs d = some dev) (hr : dev.flags.ready = true)
    (hlen : s.handles.length < handleLimit) :
    Inv { s.setDev d { dev with refcnt := dev.refcnt + 1 } with handles := d :: s.handles } := by
  have h := hs.2 d dev hd
  refine ⟨WorldOk.with_handles (s := s.setDev d { dev with refcnt := dev.refcnt + 1 })
    (l := d :: s.handles) (hs.1.setDev hd rfl rfl fun _ => id) (fun e he => ?_) hlen,
    fun e dev' he => ?_⟩
  · rcases List.mem_cons.mp he with rfl | he
    · simp
    · by_cases hed : e = d
      · simp [hed]
      · simpa [update_noteq hed] using hs.1.handles e he
  · by_cases hed : e = d
    · subst hed
      simp only [World.setDev, update_same, Option.some.injEq] at he
      subst he
      refine ⟨⟨h.ok.1, h.ok.2, h.ok.3, h.ok.4, h.ok.5, h.ok.6, h.ok.7⟩, ?_, ?_, h.inTable,
        h.fetchUris, h.failed, h.probing, h.ready, h.lastFailed, fun _ h' => ?_⟩
      rotate_right
      · exact absurd (hr.symm.trans h') (by decide)
      · simp [h.refcnt, List.count_cons]
        omega
      · show 0 < dev.refcnt + 1
        have := h.alive
        omega
    · exact (hs.2 e dev' (by simpa [update_noteq hed] using he)).frame (Frame.handles_cons hed)

/-- Freeing an unlisted record that no handle holds. -/
theorem WorldOk.free (hw : WorldOk s) (hdev : s.devs d = some dev)
    (hl : dev.flags.listed = false) (hnot : d ∉ s.handles) :
    WorldOk { s with devs := update s.devs d none } := by
  have hne : ∀ {e dev'}, s.devs e = some dev' → dev'.flags.listed = true → e ≠ d := by
    rintro e dev' h1 h3 rfl
    rw [hdev] at h1
    cases h1
    simp [hl] at h3
  refine ⟨fun e he => ?_, hw.msgFresh, hw.msgDev, hw.sorted, fun n e he => ?_,
    hw.inflightNodup, fun k hk => ?_, hw.finishing, fun e he => ?_, hw.stopped, hw.handlesLe⟩
  · by_cases hed : e = d
    · subst hed
      simp
    · simpa [update_noteq hed] using hw.devFresh e he
  · obtain ⟨dev1, h1, h2, h3⟩ := hw.entry n e he
    exact ⟨dev1, by simp [update_noteq (hne h1 h3), h1], h2, h3⟩
  · obtain ⟨msg, dev1, h1, h2, h3, h4⟩ := hw.inflight k hk
    exact ⟨msg, dev1, h1, by simp [update_noteq (hne h2 h3), h2], h3, h4⟩
  · have hed : e ≠ d := by rintro rfl; exact hnot he
    simpa [update_noteq hed] using hw.handles e he

/-- `device_close` of a handle the front end holds: a reference less, and the record freed
when it was the last. -/
theorem Inv.closed (hs : Inv s) (hd : d ∈ s.handles) :
    Returns Inv (deviceUnref d { s with handles := s.handles.erase d }) := by
  obtain ⟨dev, hdev⟩ := Option.ne_none_iff_exists'.mp (hs.1.handles d hd)
  have h := hs.2 d dev hdev
  have hc : 0 < s.handles.count d := List.count_pos_iff.mpr hd
  have hce : (s.handles.erase d).count d = s.handles.count d - 1 := List.count_erase_self _ _
  have hw : WorldOk { s with handles := s.handles.erase d } :=
    hs.1.with_handles (fun e he => hs.1.handles e (List.mem_of_mem_erase he))
      ((List.length_erase_le _ _).trans hs.1.handlesLe)
  have hother : ∀ e dev', e ≠ d → s.devs e = some dev' →
      DevOk { s with handles := s.handles.erase d } e dev' := fun e dev' hne he =>
    (hs.2 e dev' he).frame
      ⟨List.count_erase_of_ne hne _, rfl, fun _ _ => rfl, fun _ => id, fun _ _ _ => id⟩
  have hrc := h.refcnt
  refine returns_deviceUnref hdev (h.fits hs.1) (fun hr => ?_) fun hr => ?_
  · have hl := h.unlisted_of_last hd hr
    have hnot : d ∉ s.handles.erase d := by
      simp only [hl] at hrc
      rw [← List.count_eq_zero, hce]
      omega
    refine ⟨hl, by rw [h.ok.halted_eq, hl]; rfl, (hw.free hdev hl hnot).emit (.destroy d),
      fun e dev' he => ?_⟩
    by_cases hed : e = d
    · subst hed
      simp at he
    · exact (hother e dev' hed (by simpa [update_noteq hed] using he)).frame
        ⟨rfl, rfl, fun _ _ => rfl, fun _ => id, fun _ _ _ => id⟩
  · refine ⟨hw.setDev hdev rfl rfl fun _ => id, fun e dev' he => ?_⟩
    by_cases hed : e = d
    · subst hed
      simp only [World.setDev, update_same, Option.some.injEq] at he
      subst he
      refine ⟨⟨h.ok.1, h.ok.2, h.ok.3, h.ok.4, h.ok.5, h.ok.6, h.ok.7⟩, ?_, ?_, h.inTable,
        h.fetchUris, h.failed, h.probing, h.ready, h.lastFailed, fun hl' hr' => ?_⟩
      rotate_right
      · exact absurd (h.handled hl' hr') (List.count_pos_iff.mpr hd).ne'
      · simp only [World.setDev, hce, hrc]
        omega
      · show 0 < dev.refcnt - 1
        have := h.alive
        omega
    · exact (hother e dev' hed (by simpa [update_noteq hed] using he)).frame
        ⟨rfl, rfl, fun _ _ => rfl, fun _ => id, fun _ _ _ => id⟩

end Handles

end AirscanDevice
