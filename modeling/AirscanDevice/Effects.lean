/-
# What a step does to the records it does not own

`Touches s w` says what the world `w` a step builds from `s` did to the records of `s`: the
capability handler ran, and `device_del` was called, only on records listed in `s`; a request
was queued only for a listed record or a record the step created; and every record of `w` is
one `Moves` allows: an unlisted record kept its flags, every record kept its addresses and
took one transition of the negotiation machine of `Negotiation.lean` at most, and a new
record has a key at or above `nextDev`, which never decreases, and is probing its first
address.  One lemma per operation of `Spec.lean` says that the operation keeps `Touches`, and
`touches_step` puts them together for every step, as `inv_step` does for the invariant.
-/
import AirscanDevice.Reachable
import AirscanDevice.Negotiation

namespace AirscanDevice

open Function (update update_same update_noteq)

/-- The record at `d` is live and listed. -/
def World.Listed (s : World) (d : Nat) : Prop :=
  ∃ dev, s.devs d = some dev ∧ dev.flags.listed = true

/-- An event a step from `s` may emit. -/
def Event.Ok (s : World) : Event → Prop
  | .capsCallback d => s.Listed d
  | .del d => s.Listed d
  | .httpGet d _ => s.Listed d ∨ s.devs d = none
  | .cancelMessage _ _ => True
  | .destroy _ => True
  | .broadcast => True

/-- A record `y` may stand at `d` after a step from `s`: it keeps the flags of an unlisted
record and the addresses of every record, the capabilities and options of every record but a
probing one, takes one transition of the negotiation machine at most, and, if the step
created it, has a fresh key and starts probing at the first address. -/
structure Moves (s : World) (d : Nat) (y : Device) : Prop where
  flags : ∀ dev, s.devs d = some dev → dev.flags.listed = false → y.flags = dev.flags
  addresses : ∀ dev, s.devs d = some dev → y.addresses = dev.addresses
  caps : ∀ dev, s.devs d = some dev → (y.caps = dev.caps ∧ y.opt = dev.opt) ∨
    (dev.flags.listed = true ∧ dev.flags.ready = false)
  phase : ∀ dev, s.devs d = some dev → PhaseStep dev.addrCount dev.phase y.phase
  created : s.devs d = none → s.nextDev ≤ d ∧ y.phase = .probing 0

/-- What a step from `s` did, so far as it built `w`. -/
structure Touches (s w : World) : Prop where
  events : ∀ ev ∈ w.out, ev.Ok s
  devs : ∀ d y, w.devs d = some y → Moves s d y
  nextDev : s.nextDev ≤ w.nextDev

/-! ## 1. One lemma per operation -/

section Ops

variable {s w : World} {d : Nat} {x y dev : Device}

theorem Device.phase_congr (hf : y.flags = dev.flags) (ha : y.addrCurrent = dev.addrCurrent) :
    y.phase = dev.phase := by
  simp only [Device.phase, Device.probeIndex, hf, ha]

/-- A transition of a listed record that keeps its addresses, and its capabilities and
options unless it is probing. -/
theorem Moves.of_listed (hd : s.devs d = some dev) (hl : dev.flags.listed = true)
    (hadd : y.addresses = dev.addresses)
    (hc : (y.caps = dev.caps ∧ y.opt = dev.opt) ∨ dev.flags.ready = false)
    (hp : PhaseStep dev.addrCount dev.phase y.phase) : Moves s d y := by
  refine ⟨fun dev' h' hl' => ?_, fun dev' h' => ?_, fun dev' h' => ?_, fun dev' h' => ?_,
    fun h' => by rw [hd] at h'; cases h'⟩ <;> rw [hd] at h' <;> cases h'
  · simp [hl] at hl'
  · exact hadd
  · exact hc.imp_right fun hr => ⟨hl, hr⟩
  · exact hp

/-- A write that keeps the flags, the addresses and the address, the capabilities and the
options. -/
theorem Moves.keep (hd : s.devs d = some dev) (hf : y.flags = dev.flags)
    (hadd : y.addresses = dev.addresses) (ha : y.addrCurrent = dev.addrCurrent)
    (hc : y.caps = dev.caps) (ho : y.opt = dev.opt) : Moves s d y := by
  refine ⟨fun dev' h' _ => ?_, fun dev' h' => ?_, fun dev' h' => ?_, fun dev' h' => ?_,
    fun h' => by rw [hd] at h'; cases h'⟩ <;> rw [hd] at h' <;> cases h'
  · exact hf
  · exact hadd
  · exact .inl ⟨hc, ho⟩
  · exact Device.phase_congr hf ha ▸ .stay _

theorem World.Listed.listed (hd : s.Listed d) (h : s.devs d = some dev) :
    dev.flags.listed = true := by
  obtain ⟨dev', h1, h2⟩ := hd
  rw [h] at h1
  cases h1
  exact h2

theorem Moves.halt (hd : s.devs d = some dev) (hl : dev.flags.listed = true)
    (hx : x.addresses = dev.addresses) (hc : x.caps = dev.caps) (ho : x.opt = dev.opt) :
    Moves s d x.halt :=
  .of_listed hd hl hx (.inl ⟨hc, ho⟩) (by rw [Device.phase_halt]; exact .remove _)

theorem Moves.fresh (hn : s.devs d = none) (hle : s.nextDev ≤ d) (hy : y.phase = .probing 0) :
    Moves s d y :=
  ⟨fun _ h' => (nomatch hn.symm.trans h'), fun _ h' => (nomatch hn.symm.trans h'),
    fun _ h' => (nomatch hn.symm.trans h'), fun _ h' => (nomatch hn.symm.trans h'),
    fun _ => ⟨hle, hy⟩⟩

theorem Moves.with_pending (h : Moves s d y) (p : List Nat) :
    Moves s d { y with httpPending := p } :=
  ⟨h.flags, h.addresses, h.caps, h.phase, h.created⟩

theorem Touches.start (h : s.out = []) : Touches s s :=
  ⟨by simp [h], fun _ _ hd => .keep hd rfl rfl rfl rfl rfl, le_rfl⟩

theorem Touches.congr {v : World} (h : Touches s w) (hout : v.out = w.out)
    (hdevs : v.devs = w.devs) (hn : v.nextDev = w.nextDev) : Touches s v :=
  ⟨hout ▸ h.events, hdevs ▸ h.devs, hn ▸ h.nextDev⟩

theorem Touches.emit (h : Touches s w) {e : Event} (he : e.Ok s) : Touches s (w.emit e) :=
  ⟨by simpa [or_imp, forall_and, he] using h.events, h.devs, h.nextDev⟩

/-- A world that differs from `w` only in events `s` allows, in the record at `d`, and in a
larger `nextDev`. -/
theorem Touches.at (h : Touches s w) {v : World} (hdevs : ∀ e, e ≠ d → v.devs e = w.devs e)
    (hout : ∀ ev ∈ v.out, ev ∈ w.out ∨ ev.Ok s) (hn : w.nextDev ≤ v.nextDev)
    (hat : ∀ y, v.devs d = some y → Moves s d y) : Touches s v := by
  refine ⟨fun ev hev => (hout ev hev).elim (h.events ev) id, fun e y' he => ?_,
    h.nextDev.trans hn⟩
  by_cases hed : e = d
  · exact hed ▸ hat y' (hed ▸ he)
  · exact h.devs e y' ((hdevs e hed).symm.trans he)

theorem Touches.setDev (h : Touches s w) (hx : Moves s d x) : Touches s (w.setDev d x) :=
  h.at (fun e he => update_noteq he _ _) (fun ev hev => .inl hev) le_rfl fun y' hy => by
    simp only [World.setDev, update_same, Option.some.injEq] at hy
    exact hy ▸ hx

theorem Touches.free (h : Touches s w) :
    Touches s { w with devs := update w.devs d none, out := w.out ++ [.destroy d] } :=
  h.at (fun e he => update_noteq he _ _)
    (fun ev hev => (List.mem_append.mp hev).imp id fun h' => by
      rw [List.mem_singleton.mp h']; trivial) le_rfl fun y' hy => by simp at hy

theorem Touches.queued (h : Touches s w) (hd : s.Listed d ∨ s.devs d = none) (hx : Moves s d x)
    {url : SoupUri} : Touches s (w.queued d x url) := by
  refine h.at (d := d) (fun e he => by simp [World.queued, update_noteq he]) (fun ev hev => ?_)
    le_rfl fun y' hy => ?_
  · simp only [World.queued, List.mem_append, List.mem_singleton] at hev
    rcases hev with hev | rfl
    exacts [.inl hev, .inr hd]
  · simp only [World.queued, update_same, Option.some.injEq] at hy
    exact hy ▸ hx.with_pending _

theorem Touches.added (h : Touches s w) (hn : s.devs w.nextDev = none)
    (hx : x.phase = .probing 0) {name : String} : Touches s (w.added name x) :=
  h.at (d := w.nextDev) (fun e he => by simp [World.added, update_noteq he])
    (fun ev hev => .inl hev) (Nat.le_succ _) fun y' hy => by
      simp only [World.added, update_same, Option.some.injEq] at hy
      exact hy ▸ .fresh hn h.nextDev hx

theorem Touches.deleted (h : Touches s w) (hd : s.devs d = some dev)
    (hl : dev.flags.listed = true) (hx : x.addresses = dev.addresses) (hc : x.caps = dev.caps)
    (ho : x.opt = dev.opt) :
    Touches s (w.deleted d x) := by
  refine h.at (d := d) (fun e he => by simp [update_noteq he]) (fun ev hev => ?_)
    (deleted_nextDev w d x).ge fun y' hy => ?_
  · rcases deleted_out w d x ev hev with h' | rfl | rfl | ⟨m, q, rfl⟩
    exacts [.inl h', .inr ⟨dev, hd, hl⟩, .inr trivial, .inr trivial]
  · simp only [deleted_devs, update_same] at hy
    split at hy
    · cases hy
    · cases hy
      exact .halt hd hl hx hc ho

theorem Touches.replied (h : Touches s w) {m : Nat} {msg : Msg} {r : Reply}
    (hd : s.devs msg.dev = some x) : Touches s (w.replied m msg r x) :=
  h.at (d := msg.dev) (fun e he => by simp [World.replied, update_noteq he])
    (fun ev hev => .inl hev) le_rfl fun y' hy => by
      rw [replied_devs_self, Option.some.injEq] at hy
      exact hy ▸ (Moves.keep hd rfl rfl rfl rfl rfl).with_pending _

end Ops

/-! ## 2. Every step -/

section Steps

variable {s : World}

/-- `device_management_stop` deletes listed records only. -/
theorem Touches.stopped (hw : WorldOk s) (h : s.out = []) :
    Touches s { (soupSessionAbort s).purged with running := false } := by
  refine ⟨fun ev hev => ?_, fun e y hy => ?_, le_rfl⟩
  · simp only [World.purged, soupSessionAbort, h, List.nil_append, List.mem_flatMap] at hev
    obtain ⟨p, hp, hev⟩ := hev
    obtain ⟨dev, hd, -, hl⟩ := hw.entry p.1 p.2 hp
    simp only [hd, Option.map_some', Option.getD_some, delEvents, List.cons_append,
      List.mem_cons, List.mem_append, List.mem_map, List.mem_ite_nil_right,
      List.mem_singleton, List.not_mem_nil, or_false] at hev
    rcases hev with rfl | ⟨m, -, rfl⟩ | ⟨-, rfl⟩
    exacts [⟨dev, hd, hl⟩, trivial, trivial]
  · simp only [World.purged, soupSessionAbort] at hy
    split at hy
    · obtain ⟨dev, hd, hy⟩ := Option.bind_eq_some.mp hy
      unfold Device.afterDel at hy
      split at hy
      · cases hy
      · cases hy
        exact .halt hd (hw.listed_of_mem ‹_› hd) rfl rfl rfl
    · exact .keep hy rfl rfl rfl rfl rfl

/-- The capability handler moves only the record of the completed request: to its next
address, to `Removed`, or to `Negotiated`. -/
theorem Touches.completed (hs : Inv s) (h0 : s.out = []) {m : Nat} {r : Reply}
    (hm : m ∈ s.inflight) (hr : r.status ≠ soupStatusCancelled) :
    Returns (Touches s) (exec (.httpComplete m r) s) := by
  obtain ⟨msg, dev, hmsg, hd, hl, hp⟩ := hs.1.inflight m hm
  obtain ⟨hh, hrd, -⟩ := (hs.2 _ _ hd).probing_of_pending hl hp
  have hL : s.Listed msg.dev := ⟨dev, hd, hl⟩
  rw [exec_httpComplete hmsg hd hr]
  have hd2 := replied_devs_self (s := s) m msg r dev
  have ht1 := ((Touches.start h0).replied (r := r) (m := m) hd).emit (e := .capsCallback msg.dev) hL
  refine returns_deviceScannerCapabilitiesCallback hd2 (fun _ i _ hi hn => ?_)
    (fun _ _ _ => ?_) fun _ _ _ _ _ _ => ?_
  · exact returns_deviceProbeAddress hd2 fun _ _ _ _ _ _ => (ht1.queued (.inl hL)
      (.of_listed hd hl (by rfl) (.inr hrd)
        (Device.phaseStep_next hh hrd hi hn (by rfl) (by rfl)))).emit
        trivial
  · rw [deviceDel_eq_ok (s := (s.replied m msg r dev).emit (.capsCallback msg.dev)) hd2 hl
      (show 0 < dev.refcnt ∧ dev.refcnt < gintMax from hs.fits hd)]
    exact (ht1.deleted hd hl (by rfl) (by rfl) (by rfl)).emit trivial
  · exact (ht1.setDev (.of_listed hd hl (by rfl) (.inr hrd)
      (Device.phaseStep_ready hh hrd (by rfl) (by rfl)))).emit trivial

/-- `device_close` frees an unlisted record, or keeps its flags and its phase. -/
theorem Touches.closed (hs : Inv s) (h0 : s.out = []) {d : Nat} (hd : d ∈ s.handles) :
    Returns (Touches s) (deviceUnref d { s with handles := s.handles.erase d }) := by
  obtain ⟨dev, hdev⟩ := Option.ne_none_iff_exists'.mp (hs.1.handles d hd)
  have ht1 : Touches s { s with handles := s.handles.erase d } :=
    (Touches.start h0).congr rfl rfl rfl
  refine returns_deviceUnref hdev (hs.fits hdev) (fun hr => ?_) fun _ =>
    ht1.setDev (.keep hdev rfl rfl rfl rfl rfl)
  have hl := (hs.2 d dev hdev).unlisted_of_last hd hr
  exact ⟨hl, by rw [(hs.2 d dev hdev).ok.halted_eq, hl]; rfl, ht1.free⟩

/-- **What a step does to the other records.**  From a valid state, every allowed step runs
the capability handler and `device_del` only on records listed before it, queues requests
only for those and for records it creates, and keeps the flags of every other record. -/
theorem touches_step (hs : Inv s) {a : Action} (ha : a.Allowed s) :
    Returns (Touches { s with out := [] }) (exec a { s with out := [] }) := by
  have hs0 : Inv { s with out := [] } := inv_with_out.mpr hs
  have ht0 : Touches { s with out := [] } { s with out := [] } := Touches.start rfl
  have hfresh : ∀ n, s.nextDev ≤ n → ({ s with out := [] } : World).devs n = none :=
    hs.1.devFresh
  cases a with
  | managementStart conf =>
    refine returns_foldlM (P := Touches { s with out := [] }) (fun w c h => ?_) conf
      (ht0.congr rfl rfl rfl : Touches _
        { s with out := [], running := true, inflight := [] })
    cases hf : deviceFind c.name w with
    | some d =>
      rw [deviceAddStatic_of_listed hf]
      exact h
    | none =>
      exact returns_deviceAddStatic hf fun url hu =>
        (h.added (hfresh _ h.nextDev) (by rfl)).queued (.inr (hfresh _ h.nextDev))
          (.fresh (hfresh _ h.nextDev) h.nextDev (by rfl))
  | managementStop =>
    rw [exec, deviceManagementStop_eq hs0]
    exact Touches.stopped hs0.1 rfl
  | found name b as =>
    cases hf : deviceFind name { s with out := [] } with
    | some d =>
      rw [exec, deviceFound_of_listed hf]
      exact ht0
    | none =>
      exact returns_deviceFound hf fun _ _ _ _ _ _ =>
        (ht0.added (hfresh _ le_rfl) (by rfl)).queued (.inr (hfresh _ le_rfl))
          (.fresh (hfresh _ le_rfl) le_rfl (by rfl))
  | removed name =>
    rcases hs0.exec_removed name with h | ⟨d, dev, hd, hl, h⟩ <;> rw [h]
    · exact ht0
    · exact ht0.deleted hd hl rfl rfl rfl
  | initScanFinished =>
    exact (ht0.congr (v := { s with out := [], initScan := false }) rfl rfl rfl).emit
      (e := .broadcast) trivial
  | httpComplete m r => exact Touches.completed hs0 rfl ha.1 ha.2
  | httpCancelled m =>
    obtain ⟨msg, hmsg⟩ := Option.ne_none_iff_exists'.mp (hs.1.finishing m ha)
    rw [exec_httpCancelled (s := { s with out := [] }) hmsg]
    exact ht0.congr rfl rfl rfl
  | deviceOpen name =>
    rcases hs0.exec_deviceOpen name with h | ⟨d, dev, -, hd, -, h⟩
    · rw [h]
      exact ht0
    · rw [h]
      exact (ht0.setDev (.keep hd (by rfl) (by rfl) (by rfl) (by rfl) (by rfl))).congr rfl rfl rfl
  | deviceClose d => exact Touches.closed hs0 rfl ha

/-- A step from a reachable state, as `Touches` sees it. -/
theorem Step.touches {a : Action} {s' : World} (h : Reachable s) (hstep : Step s a s') :
    Touches { s with out := [] } s' :=
  (touches_step (inv_of_reachable h) hstep.1).of_ok hstep.2

end Steps

end AirscanDevice
