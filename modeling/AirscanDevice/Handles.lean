/-
# What an open handle reads

`device_open` hands out a reference to a ready record, and the frontend reads the record's
options with `device_get_option` for as long as it keeps the handle: also after `device_del`
has halted the record, which is then no longer ready.  A record gets its options once, in
`device_scanner_capabilities_callback` when it becomes ready: those `device_set_source`
chooses for the first source its capabilities have (`Device.OptsChosen`).

`KeepsOpts s w` says what a step from `s` did to the options, so far as it built `w`: a record
the frontend can read in `w` (ready, or named by a handle) got chosen options in the step, or
kept the capabilities and options of a record it could read in `s`.  One lemma per operation
gives it, `keepsOpts_step` puts them together for every step, and `handle_laws` concludes
that in every reachable state each readable record has chosen options, so that
`device_get_option` answers `OPT_SCAN_SOURCE` with the name of the first source the
capabilities have.  It also says that a handle names a ready or a halted record, and, from
`touches_step`, that no step changes the capabilities or options of a readable record: the
capability handler writes them only on a probing record, which no handle names.
-/
import AirscanDevice.Effects

namespace AirscanDevice

open Function (update update_same update_noteq)

/-! ## 1. Chosen options -/

/-- The options the capability handler gives a record that becomes ready: those
`device_set_source` chooses for the first source its capabilities have. -/
def Device.OptsChosen (dev : Device) : Prop :=
  (initialSource dev.caps).bind (deviceSetSource dev.caps) = some dev.opt

instance (dev : Device) : Decidable dev.OptsChosen := inferInstanceAs (Decidable (_ = _))

theorem Device.OptsChosen.congr {x y : Device} (h : x.OptsChosen) (hc : y.caps = x.caps)
    (ho : y.opt = x.opt) : y.OptsChosen := by
  rw [Device.OptsChosen, hc, ho]
  exact h

/-- A record whose options the frontend can read: a ready one, or one a handle names. -/
def World.Readable (s : World) (d : Nat) (dev : Device) : Prop :=
  dev.flags.ready = true ∨ d ∈ s.handles

/-- Every record the frontend can read has chosen options. -/
def World.OptsOk (s : World) : Prop :=
  ∀ d dev, s.devs d = some dev → s.Readable d dev → dev.OptsChosen

/-- Where the options of the record `y` at `d` come from: they were chosen, or they are those
of a record of `s` at `d` that the frontend could read. -/
def World.OptsFrom (s : World) (d : Nat) (y : Device) : Prop :=
  y.OptsChosen ∨ ∃ dev, s.devs d = some dev ∧ s.Readable d dev ∧ y.caps = dev.caps ∧
    y.opt = dev.opt

/-- What a step from `s` did to the options, so far as it built `w`. -/
def KeepsOpts (s w : World) : Prop :=
  ∀ d y, w.devs d = some y → w.Readable d y → s.OptsFrom d y

/-! ## 2. One lemma per operation -/

section Ops

variable {s w v : World} {d : Nat} {x dev : Device}

theorem World.OptsFrom.chosen (hs : s.OptsOk) {y : Device} (h : s.OptsFrom d y) :
    y.OptsChosen := by
  rcases h with h | ⟨dev, hd, hr, hc, ho⟩
  exacts [h, (hs d dev hd hr).congr hc ho]

theorem KeepsOpts.optsOk (h : KeepsOpts s w) (hs : s.OptsOk) : w.OptsOk :=
  fun d y hd hr => (h d y hd hr).chosen hs

theorem KeepsOpts.refl (s : World) : KeepsOpts s s :=
  fun _ y hd hr => .inr ⟨y, hd, hr, rfl, rfl⟩

/-- The same records, and no handle that `w` did not have. -/
theorem KeepsOpts.congr (h : KeepsOpts s w) (hd : v.devs = w.devs)
    (hh : ∀ e ∈ v.handles, e ∈ w.handles) : KeepsOpts s v := fun e y he hr =>
  h e y (hd ▸ he) (hr.imp_right (hh e))

theorem KeepsOpts.emit (h : KeepsOpts s w) {e : Event} : KeepsOpts s (w.emit e) :=
  h.congr rfl fun _ he => he

/-- A world that differs from `w` only at `d`, and gains no handle but `d`. -/
theorem KeepsOpts.at (h : KeepsOpts s w) (hh : ∀ e ∈ v.handles, e ≠ d → e ∈ w.handles)
    (hdevs : ∀ e, e ≠ d → v.devs e = w.devs e)
    (hat : ∀ y, v.devs d = some y → v.Readable d y → w.OptsFrom d y) : KeepsOpts s v := by
  intro e y he hr
  by_cases hed : e = d
  · subst hed
    rcases hat y he hr with hc | ⟨dev, hd, hr', hc, ho⟩
    · exact .inl hc
    · rcases h e dev hd hr' with hc' | ⟨dev', hd', hr'', hc', ho'⟩
      · exact .inl (hc'.congr hc ho)
      · exact .inr ⟨dev', hd', hr'', hc.trans hc', ho.trans ho'⟩
  · rw [hdevs e hed] at he
    exact h e y he (hr.imp_right fun hm => hh e hm hed)

/-- A write that keeps the capabilities and the options, and makes the record ready only if
it was. -/
theorem KeepsOpts.setDev (h : KeepsOpts s w) (hd : w.devs d = some dev)
    (hc : x.caps = dev.caps) (ho : x.opt = dev.opt)
    (hr : x.flags.ready = true → dev.flags.ready = true) : KeepsOpts s (w.setDev d x) :=
  h.at (fun _ he _ => he) (fun _ he => update_noteq he _ _) fun y hy hy' => by
    simp only [World.setDev, update_same, Option.some.injEq] at hy
    subst hy
    exact .inr ⟨dev, hd, hy'.imp_left hr, hc, ho⟩

/-- A record the capability handler makes ready, with the options it chose. -/
theorem KeepsOpts.readied (h : KeepsOpts s w) {caps : Devcaps} {src : OptSource}
    {opt : DeviceOpts} (hs : initialSource caps = some src)
    (ho : deviceSetSource caps src = some opt) : KeepsOpts s (w.setDev d (dev.ready caps opt)) :=
  h.at (fun _ he _ => he) (fun _ he => update_noteq he _ _) fun y hy _ => by
    simp only [World.setDev, update_same, Option.some.injEq] at hy
    subst hy
    exact .inl (by simp [Device.OptsChosen, Device.ready, hs, ho])

/-- A new record that is not ready, at a key no handle names, and its first request. -/
theorem KeepsOpts.added (h : KeepsOpts s w) (hh : w.nextDev ∉ w.handles) {name : String}
    {y : Device} (hy : y.flags.ready = false) {url : SoupUri} :
    KeepsOpts s ((w.added name x).queued w.nextDev y url) :=
  h.at (d := w.nextDev) (fun _ he _ => he)
    (fun e he => by simp [World.queued, World.added, update_noteq he]) fun y' hy' hr => by
      simp only [World.queued, update_same, Option.some.injEq] at hy'
      subst hy'
      simp [World.Readable, World.queued, World.added, hy, hh] at hr

/-- A request for the next address, which keeps the rest of the record. -/
theorem KeepsOpts.queued (h : KeepsOpts s w) (hd : w.devs d = some dev)
    (hc : x.caps = dev.caps) (ho : x.opt = dev.opt) (hf : x.flags = dev.flags)
    {url : SoupUri} : KeepsOpts s (w.queued d x url) :=
  h.at (d := d) (fun _ he _ => he) (fun e he => by simp [World.queued, update_noteq he])
    fun y hy hr => by
      simp only [World.queued, update_same, Option.some.injEq] at hy
      subst hy
      exact .inr ⟨dev, hd, by rw [World.Readable, ← hf]; exact hr, hc, ho⟩

/-- The record of a completed request, out of `http_pending`. -/
theorem KeepsOpts.replied (h : KeepsOpts s w) {m : Nat} {msg : Msg} {r : Reply}
    (hd : w.devs msg.dev = some dev) : KeepsOpts s (w.replied m msg r dev) :=
  h.at (d := msg.dev) (fun _ he _ => he)
    (fun e he => by simp [World.replied, update_noteq he]) fun y hy hr => by
      rw [replied_devs_self, Option.some.injEq] at hy
      subst hy
      exact .inr ⟨dev, hd, hr, rfl, rfl⟩

/-- `device_del` halts or frees the record, which keeps its capabilities and options. -/
theorem KeepsOpts.deleted (h : KeepsOpts s w) (hd : w.devs d = some dev) :
    KeepsOpts s (w.deleted d dev) :=
  h.at (d := d) (fun _ he _ => by simpa using he) (fun e he => by simp [update_noteq he])
    fun y hy hr => by
      simp only [deleted_devs, update_same] at hy
      split at hy
      · cases hy
      · cases hy
        exact .inr ⟨dev, hd, .inr (by simpa [World.Readable, Device.halt] using hr), rfl, rfl⟩

/-- `device_management_stop` halts or frees every record of the table. -/
theorem KeepsOpts.stopped : KeepsOpts s { (soupSessionAbort s).purged with running := false } := by
  intro e y hy hr
  simp only [World.purged, soupSessionAbort] at hy
  split at hy
  · obtain ⟨dev, hd, hy⟩ := Option.bind_eq_some.mp hy
    unfold Device.afterDel at hy
    split at hy
    · cases hy
    · cases hy
      exact .inr ⟨dev, hd, .inr (by simpa [World.Readable, Device.halt] using hr), rfl, rfl⟩
  · exact .inr ⟨y, hy, hr, rfl, rfl⟩

/-- `device_open` hands out a handle to a ready record. -/
theorem KeepsOpts.opened (hd : s.devs d = some dev) (hr : dev.flags.ready = true) :
    KeepsOpts s { s.setDev d { dev with refcnt := dev.refcnt + 1 } with
                  handles := d :: s.handles } :=
  (KeepsOpts.refl s).at (fun _ he hne => (List.mem_cons.mp he).resolve_left hne)
    (fun _ he => update_noteq he _ _) fun y hy _ => by
      simp only [World.setDev, update_same, Option.some.injEq] at hy
      subst hy
      exact .inr ⟨dev, hd, .inl hr, rfl, rfl⟩

end Ops

/-! ## 3. Every step -/

section Steps

variable {s : World}

/-- The capability handler keeps the options, or gives the record chosen ones. -/
theorem KeepsOpts.completed (hs : Inv s) {m : Nat} {r : Reply} (hm : m ∈ s.inflight)
    (hr : r.status ≠ soupStatusCancelled) : Returns (KeepsOpts s) (exec (.httpComplete m r) s) := by
  obtain ⟨msg, dev, hmsg, hd, hl, -⟩ := hs.1.inflight m hm
  rw [exec_httpComplete hmsg hd hr]
  have hd2 := replied_devs_self (s := s) m msg r dev
  have h1 := ((KeepsOpts.refl s).replied (m := m) (r := r) hd).emit (e := .capsCallback msg.dev)
  refine returns_deviceScannerCapabilitiesCallback hd2
    (fun _ _ _ _ _ => returns_deviceProbeAddress hd2 fun _ _ _ _ _ _ =>
      KeepsOpts.emit (h1.queued hd2 (by rfl) (by rfl) (by rfl))) (fun _ _ _ => ?_)
    fun _ _ _ _ hsrc ho => (h1.readied hsrc ho).emit
  rw [deviceDel_eq_ok (s := (s.replied m msg r dev).emit (.capsCallback msg.dev)) hd2 hl
      (hs.fits hd :)]
  exact (h1.deleted hd2).emit

/-- `device_close` drops a handle, and a reference or the record. -/
theorem KeepsOpts.closed (hs : Inv s) {d : Nat} (hd : d ∈ s.handles) :
    Returns (KeepsOpts s) (exec (.deviceClose d) s) := by
  obtain ⟨dev, hdev⟩ := Option.ne_none_iff_exists'.mp (hs.1.handles d hd)
  have h1 : KeepsOpts s { s with handles := s.handles.erase d } :=
    (KeepsOpts.refl s).congr rfl fun _ he => List.mem_of_mem_erase he
  refine returns_deviceUnref hdev (hs.fits hdev) (fun hr => ?_) fun _ => h1.setDev hdev rfl rfl id
  have hl := (hs.2 d dev hdev).unlisted_of_last hd hr
  refine ⟨hl, by rw [(hs.2 d dev hdev).ok.halted_eq, hl]; rfl, ?_⟩
  exact h1.at (fun _ he _ => he) (fun _ he => update_noteq he _ _) fun y hy _ => by
    simp at hy

/-- **What a step does to the options.**  From a valid state, every allowed step keeps the
capabilities and options of each record the frontend can read, or gives it chosen ones. -/
theorem keepsOpts_step (hs : Inv s) {a : Action} (ha : a.Allowed s) :
    Returns (KeepsOpts s) (exec a s) := by
  have hfresh : s.nextDev ∉ s.handles := fun h => lt_irrefl _ (hs.1.handles_lt h)
  cases a with
  | managementStart conf =>
    have h0 : KeepsOpts s { s with running := true, inflight := [] } :=
      (KeepsOpts.refl s).congr rfl fun _ he => he
    refine (returns_foldlM
      (P := fun w => KeepsOpts s w ∧ w.handles = s.handles ∧ s.nextDev ≤ w.nextDev)
      (fun w c h => ?_) conf ⟨h0, rfl, le_rfl⟩).mono fun _ h => h.1
    cases hf : deviceFind c.name w with
    | some d =>
      rw [deviceAddStatic_of_listed hf]
      exact h
    | none =>
      refine returns_deviceAddStatic hf fun _ _ => ⟨h.1.added (fun hm => ?_) rfl, h.2.1,
        h.2.2.trans (Nat.le_succ _)⟩
      exact absurd (hs.1.handles_lt (h.2.1 ▸ hm)) (not_lt.mpr h.2.2)
  | managementStop =>
    rw [exec, deviceManagementStop_eq hs]
    exact KeepsOpts.stopped
  | found name b as =>
    cases hf : deviceFind name s with
    | some d =>
      rw [exec, deviceFound_of_listed hf]
      exact KeepsOpts.refl s
    | none => exact returns_deviceFound hf fun _ _ _ _ _ _ => (KeepsOpts.refl s).added hfresh rfl
  | removed name =>
    rcases hs.exec_removed name with h | ⟨d, dev, hd, -, h⟩ <;> rw [h]
    exacts [KeepsOpts.refl s, (KeepsOpts.refl s).deleted hd]
  | initScanFinished =>
    exact ((KeepsOpts.refl s).congr (v := { s with initScan := false }) rfl fun _ he => he).emit
  | httpComplete m r => exact KeepsOpts.completed hs ha.1 ha.2
  | httpCancelled m =>
    obtain ⟨msg, hmsg⟩ := Option.ne_none_iff_exists'.mp (hs.1.finishing m ha)
    rw [exec_httpCancelled hmsg]
    exact (KeepsOpts.refl s).congr rfl fun _ he => he
  | deviceOpen name =>
    rcases hs.exec_deviceOpen name with h | ⟨d, dev, -, hd, hr, h⟩ <;> rw [h]
    exacts [KeepsOpts.refl s, KeepsOpts.opened hd hr]
  | deviceClose d => exact KeepsOpts.closed hs ha

/-- Every record the frontend can read in a reachable state has chosen options. -/
theorem optsOk_of_reachable (h : Reachable s) : s.OptsOk := by
  induction h with
  | init scan => exact fun _ _ hd => nomatch hd
  | @step s _ _ h hstep ih =>
    have hs0 : Inv { s with out := [] } := inv_with_out (o := []) |>.mpr (inv_of_reachable h)
    exact ((keepsOpts_step hs0 hstep.1).of_ok hstep.2).optsOk ih

/-- A record a handle names is ready, or halted: `device_open` hands out handles to ready
records only. -/
theorem Inv.handled_flags (hs : Inv s) {d : Nat} {dev : Device} (hd : s.devs d = some dev)
    (hh : d ∈ s.handles) : dev.flags.ready = true ∨ dev.flags.halted = true := by
  cases hr : dev.flags.ready
  · refine .inr (Bool.not_eq_false _ |>.mp fun hf => ?_)
    have hl : dev.flags.listed = true := by rw [(hs.2 d dev hd).ok.listed_iff, hf]; rfl
    exact absurd ((hs.2 d dev hd).handled hl hr) (List.count_pos_iff.mpr hh).ne'
  · exact .inl rfl

/-- What the frontend reads of the records it can reach. -/
structure HandleLaws (s : World) : Prop where
  /-- A handle names a live record that is ready, or that `device_del` has halted since. -/
  handled : ∀ d ∈ s.handles, ∃ dev, s.devs d = some dev ∧
    (dev.flags.ready = true ∨ dev.flags.halted = true)
  /-- A record that is ready or that a handle names -- also one `device_del` has halted under
  an open handle -- has the options `device_set_source` chose for the first source its
  capabilities have. -/
  chosen : ∀ d dev, s.devs d = some dev → dev.flags.ready = true ∨ d ∈ s.handles →
    ∃ src, initialSource dev.caps = some src ∧ deviceSetSource dev.caps src = some dev.opt
  /-- On such a record `device_get_option` answers `OPT_SCAN_SOURCE` with the name of that
  first source. -/
  source : ∀ d dev, s.devs d = some dev → dev.flags.ready = true ∨ d ∈ s.handles →
    ∃ src, initialSource dev.caps = some src ∧
      deviceGetOption dev.opt optScanSource = some (.string (optSourceToSane (some src)))
  /-- No step changes the capabilities or the options of such a record. -/
  kept : ∀ a s', Step s a s' → ∀ d dev y, s.devs d = some dev →
    dev.flags.ready = true ∨ d ∈ s.handles → s'.devs d = some y →
    y.caps = dev.caps ∧ y.opt = dev.opt

/-- **What the frontend reads through a handle, in every reachable state.** -/
theorem handle_laws (h : Reachable s) : HandleLaws s := by
  have hs := inv_of_reachable h
  have hc : ∀ d dev, s.devs d = some dev → dev.flags.ready = true ∨ d ∈ s.handles →
      ∃ src, initialSource dev.caps = some src ∧ deviceSetSource dev.caps src = some dev.opt :=
    fun d dev hd hr => Option.bind_eq_some.mp (optsOk_of_reachable h d dev hd hr)
  refine ⟨fun d hd => ?handled, hc, fun d dev hd hr => ?source,
    fun a s' hstep d dev y hd hr hy => ?kept⟩
  case handled =>
    obtain ⟨dev, hdev⟩ := Option.ne_none_iff_exists'.mp (hs.1.handles d hd)
    exact ⟨dev, hdev, hs.handled_flags hdev hd⟩
  case source =>
    obtain ⟨src, hsrc, ho⟩ := hc d dev hd hr
    obtain ⟨c, -, hopt⟩ := Option.map_eq_some'.mp ho
    refine ⟨src, hsrc, ?_⟩
    simp [← hopt, deviceGetOption, optNumOptions, optScanResolution, optScanColormode,
      optScanSource]
  case kept =>
    rcases ((Step.touches h hstep).devs d y hy).caps dev hd with hk | ⟨hl, hrd⟩
    · exact hk
    · rcases hr with hr | hh
      · exact absurd (hr.symm.trans hrd) (by decide)
      · exact absurd ((hs.2 d dev hd).handled hl hrd) (List.count_pos_iff.mpr hh).ne'

/-- A halted record held by a handle, a probing one and a ready one. -/
theorem handle_laws_mixed : HandleLaws mixed := handle_laws mixed_reachable

end Steps

end AirscanDevice
