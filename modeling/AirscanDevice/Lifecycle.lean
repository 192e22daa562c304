/-
# The life of a record: flags, references, halting

A record is created listed, probed until it is ready or deleted, halted by `device_del`, and
freed by the `device_unref` that drops its last reference.  Three structures of named facts
say what holds of it in every reachable state:

* `FlagLaws`: the laws between `DEVICE_LISTED`, `DEVICE_READY`, `DEVICE_HALTED` and
  `DEVICE_INIT_WAIT`, and what `device_table_ready` reads of them (`flag_laws`);
* `RefLaws`: the reference count is the table's reference plus the open handles, a record is
  freed exactly when neither is left, and the assertions of `device_unref` never fail
  (`ref_laws`), while the front end holds fewer than `handleLimit` handles; past that the
  `gint` count wraps, and a `device_close` can fail an assertion (`refcnt_wraps`).  Closing a
  handle just opened gives the state back (`open_close_restores`), and once the session is
  stopped and every handle closed no record is left (`stopped_closed_freed`);
* `HaltedLaws`: what a step does to a halted record -- no handler, not even one that dies on a
  freed record, no request, no second `device_del`, and its flags kept -- and that the
  completion of a stale request changes no record and no entry (`halted_laws`, from
  `touches_step`).

`removed_last_wait_no_broadcast` is a run on which the wait predicate of `device_list_get`
becomes true in a step that does not call `g_cond_broadcast`; `KeepsWait` names what that
wait reads, and `wait_end_broadcasts_unless_removed` shows that every other step that ends the
wait calls it, except `device_management_stop`.
-/
import AirscanDevice.Registry

namespace AirscanDevice

variable {s : World}

/-! ## 1. The flags -/

/-- The flag laws, and what `device_table_ready` reads of them. -/
structure FlagLaws (s : World) : Prop where
  /-- A halted record is neither listed nor ready. -/
  halted : ∀ d dev, s.devs d = some dev → dev.flags.halted = true →
    dev.flags.listed = false ∧ dev.flags.ready = false
  /-- `DEVICE_READY` and `DEVICE_INIT_WAIT` are never both set. -/
  readyInitWait : ∀ d dev, s.devs d = some dev →
    ¬(dev.flags.ready = true ∧ dev.flags.initWait = true)
  /-- Listed exactly when not halted. -/
  listed : ∀ d dev, s.devs d = some dev → (dev.flags.listed = true ↔ dev.flags.halted = false)
  /-- A ready record has a source its capabilities have. -/
  readySource : ∀ d dev, s.devs d = some dev → dev.flags.ready = true →
    ∃ src, dev.opt.src = some src ∧ (dev.caps.src src).isSome
  /-- A listed record waits exactly when it was created waited for and is not ready yet. -/
  initWait : ∀ d dev, s.devs d = some dev → dev.flags.listed = true →
    (dev.flags.initWait = true ↔ dev.bornInitWait = true ∧ dev.flags.ready = false)
  /-- `device_table_ready()` returns, and returns true exactly when every listed record that
  was created waited for is ready. -/
  tableReady : ∃ b, deviceTableReady s = .ok b ∧
    (b = true ↔ ∀ d dev, s.devs d = some dev → dev.flags.listed = true →
      dev.bornInitWait = true → dev.flags.ready = true)

/-- A listed record waits exactly when it was created waited for and is not ready. -/
theorem Device.Ok.initWait_iff {dev : Device} (h : dev.Ok) (hl : dev.flags.listed = true) :
    dev.flags.initWait = true ↔ dev.bornInitWait = true ∧ dev.flags.ready = false := by
  rw [h.initWait hl, Bool.and_eq_true, Bool.not_eq_true']

/-- **The flag laws of every reachable state.** -/
theorem flag_laws (h : Reachable s) : FlagLaws s := by
  have hs := inv_of_reachable h
  have ok : ∀ d dev, s.devs d = some dev → dev.Ok := fun d dev hd => (hs.2 d dev hd).ok
  refine ⟨fun d dev hd hh => ?_, fun d dev hd hri => ?_, fun d dev hd => ?_,
    fun d dev hd => (ok d dev hd).ready_src, fun d dev hd => (ok d dev hd).initWait_iff, ?_⟩
  · exact ⟨by simp [(ok d dev hd).listed_iff, hh], (ok d dev hd).halted_ready hh⟩
  · simp [(ok d dev hd).ready_initWait hri.1] at hri
  · rw [(ok d dev hd).listed_iff]
    cases dev.flags.halted <;> simp
  · refine ⟨_, deviceTableReady_eq hs.1.tableLive, ?_⟩
    simp only [beq_iff_eq, List.length_eq_zero, List.eq_nil_iff_forall_not_mem,
      hs.mem_collected, DeviceFlags.initWait_meets, not_exists, not_and]
    refine forall_congr' fun d => forall_congr' fun dev => imp_congr_right fun hd =>
      imp_congr_right fun hl => ?_
    rw [(ok d dev hd).initWait_iff hl]
    cases dev.bornInitWait <;> cases dev.flags.ready <;> simp

theorem flag_laws_mixed : FlagLaws mixed := flag_laws mixed_reachable

/-- `device_removed` of the last record `device_list_get` waits for: the wait is over, and no
`g_cond_broadcast` wakes the waiter. -/
theorem removed_last_wait_no_broadcast :
    ∃ s s', Reachable s ∧ Step s (.removed "A") s' ∧ deviceListWaitDone s = .ok false ∧
      deviceListWaitDone s' = .ok true ∧ Event.broadcast ∉ s'.out :=
  ⟨_, _, scanOverA_reachable, ⟨rfl, rfl⟩, rfl, rfl, by decide⟩

/-! ## 2. References -/

/-- The references of a state. -/
structure RefLaws (s : World) : Prop where
  /-- The count: one for the table while listed, and one per open handle. -/
  refcnt : ∀ d dev, s.devs d = some dev →
    dev.refcnt = (if dev.flags.listed then 1 else 0) + s.handles.count d
  /-- A record is freed exactly when neither the table nor a handle refers to it. -/
  freed : ∀ d, s.devs d = none ↔ d ∉ s.handles ∧ ∀ n, (n, d) ∉ s.table
  /-- No step fails an assertion of `device_unref` or dereferences a freed record. -/
  unref : ∀ a f, a.Allowed s → exec a { s with out := [] } = .error f →
    f ≠ .assertion .unrefUnlisted ∧ f ≠ .assertion .unrefHalted ∧ ∀ d, f ≠ .useAfterFree d
  /-- `device_open` hands out no handle, or one to a ready record that is not halted. -/
  opened : ∀ name s', Step s (.deviceOpen name) s' → s'.handles = s.handles ∨
    ∃ d dev, s'.handles = d :: s.handles ∧ s.devs d = some dev ∧ dev.flags.ready = true ∧
      dev.flags.halted = false

/-- A record of a valid state is referred to. -/
theorem Inv.referenced (hs : Inv s) {d : Nat} {dev : Device} (hd : s.devs d = some dev) :
    d ∈ s.handles ∨ ∃ n, (n, d) ∈ s.table := by
  have h := hs.2 d dev hd
  by_cases hh : d ∈ s.handles
  · exact .inl hh
  · have hc : s.handles.count d = 0 := List.count_eq_zero.mpr hh
    cases hl : dev.flags.listed
    · have := h.alive
      simp [h.refcnt, hl, hc] at this
    · exact .inr ⟨_, h.inTable hl⟩

/-- **The references of every reachable state.** -/
theorem ref_laws (h : Reachable s) : RefLaws s := by
  have hs := inv_of_reachable h
  refine ⟨fun d dev hd => (hs.2 d dev hd).refcnt, fun d => ⟨fun hd => ⟨fun hh => ?_,
    fun n hn => ?_⟩, fun ⟨hh, ht⟩ => ?_⟩, fun a f ha hf => ?_, fun name s' hstep => ?_⟩
  · exact hs.1.handles d hh hd
  · obtain ⟨dev, h1, -⟩ := hs.1.entry n d hn
    rw [hd] at h1
    cases h1
  · cases hd : s.devs d with
    | none => rfl
    | some dev =>
      rcases hs.referenced hd with h1 | ⟨n, h1⟩
      exacts [absurd h1 hh, absurd h1 (ht n)]
  · have hb := (inv_step hs ha).benign hf
    refine ⟨?_, ?_, fun d => ?_⟩ <;> rintro rfl <;> exact hb
  · have hs0 : Inv { s with out := [] } := inv_with_out.mpr hs
    rcases hs0.exec_deviceOpen name with he | ⟨d, dev, -, hd, hr, he⟩ <;>
      rw [hstep.2.symm.trans he |> Except.ok.inj]
    · exact .inl rfl
    · refine .inr ⟨d, dev, rfl, hd, hr, ?_⟩
      cases hh : dev.flags.halted
      · rfl
      · simp [(hs.2 d dev hd).ok.halted_ready hh] at hr

theorem ref_laws_mixed : RefLaws mixed := ref_laws mixed_reachable

/-- Calls made one after another: those of `as`, then those of `bs`. -/
theorem World.execAll_append (s : World) (as bs : List Action) :
    s.execAll (as ++ bs) = (s.execAll as).bind fun s' => s'.execAll bs := by
  induction as generalizing s with
  | nil => rfl
  | cons a as ih =>
    simp only [List.cons_append, World.execAll]
    cases exec a { s with out := [] } with
    | error f => rfl
    | ok w => exact ih w

/-- The front end opening the ready record `dev` of `name` `n` times, with no bound: each
`device_ref` adds one to the `gint` count, modulo `2 ^ 32`. -/
theorem execAll_opens {name : String} {d : Nat} (n : Nat) : ∀ (w : World) (dev : Device),
    deviceFind name w = some d → w.devs d = some dev → dev.flags.ready = true →
    gintWrap dev.refcnt = dev.refcnt →
    ∃ w', w.execAll (List.replicate n (.deviceOpen name)) = .ok w' ∧
      w'.devs d = some { dev with refcnt := gintWrap (dev.refcnt + n) } ∧
      w'.handles = List.replicate n d ++ w.handles := by
  induction n with
  | zero =>
    intro w dev _ hd _ hw
    exact ⟨w, rfl, by simp [hd, hw], rfl⟩
  | succ n ih =>
    intro w dev hf hd hr _
    have h1 := exec_deviceOpen_ready (s := { w with out := [] }) hf hd hr
    obtain ⟨w', he, hd', hh⟩ := ih { ({ w with out := [] } : World).setDev d
        { dev with refcnt := gintWrap (dev.refcnt + 1) } with handles := d :: w.handles }
      { dev with refcnt := gintWrap (dev.refcnt + 1) } hf (by simp [World.setDev]) hr
      (by simpa using gintWrap_add_wrap (dev.refcnt + 1) 0)
    refine ⟨w', ?_, ?_, ?_⟩
    · rw [List.replicate_succ, World.execAll, h1]
      exact he
    · rw [hd', gintWrap_add_wrap, show dev.refcnt + 1 + (n : Int) = dev.refcnt + (n + 1 : Nat) by
        omega]
    · rw [hh, List.replicate_succ']
      simp

/-- **The reference count wraps.**  Nothing bounds the opens of a record: from the state in
which `A` is ready, `2147483647` (`2 ^ 31 - 1`) calls of `device_open("A")` leave the listed
record with as many open handles and a count of `-2 ^ 31`, not `2 ^ 31`; after `4294967296`
(`2 ^ 32`) of them one `device_close` drops the count to `0` and fails the `g_assert` of
`device_unref` that the record be unlisted. -/
theorem refcnt_wraps :
    Reachable readyA ∧
    (∃ w, readyA.execAll (List.replicate 2147483647 (.deviceOpen "A")) = .ok w ∧
      w.handles = List.replicate 2147483647 0 ∧
      (w.devs 0).map (fun dev => (dev.flags.listed, dev.refcnt)) = some (true, -2147483648)) ∧
    readyA.execAll (List.replicate 4294967296 (.deviceOpen "A") ++ [.deviceClose 0]) =
      .error (.assertion .unrefUnlisted) := by
  obtain ⟨dev, hd, hr, hc, hl⟩ : ∃ dev, readyA.devs 0 = some dev ∧ dev.flags.ready = true ∧
      dev.refcnt = 1 ∧ dev.flags.listed = true := ⟨_, rfl, rfl, rfl, rfl⟩
  have hf : deviceFind "A" readyA = some 0 := rfl
  have hw : gintWrap dev.refcnt = dev.refcnt := by rw [hc]; decide
  refine ⟨readyA_reachable, ?_, ?_⟩
  · obtain ⟨w, he, hd', hh⟩ := execAll_opens 2147483647 readyA dev hf hd hr hw
    refine ⟨w, he, by rw [hh, show readyA.handles = [] from rfl, List.append_nil], ?_⟩
    rw [hd', Option.map_some', Option.some.injEq, Prod.mk.injEq]
    exact ⟨hl, by simp only [hc]; decide⟩
  · obtain ⟨w, he, hd', -⟩ := execAll_opens 4294967296 readyA dev hf hd hr hw
    have hclose :
        exec (.deviceClose 0) { w with out := [] } = .error (.assertion .unrefUnlisted) := by
      simp [exec, deviceClose, deviceUnref, World.deref, hd', hc, hl, gAssert, gintWrap]
    rw [World.execAll_append, he]
    show (exec (.deviceClose 0) { w with out := [] }).bind (fun s' => s'.execAll []) = _
    rw [hclose]
    rfl

/-- **Closing the handle `device_open` has just returned restores the state**: the handle
and the reference it took are given back, and nothing else changed. -/
theorem open_close_restores (h : Reachable s) {name : String} {s' : World} {d : Nat}
    (hopen : Step s (.deviceOpen name) s') (hd : s'.handles = d :: s.handles) :
    Step s' (.deviceClose d) { s with out := [] } := by
  have hs := inv_of_reachable h
  have hs0 : Inv { s with out := [] } := inv_with_out.mpr hs
  rcases hs0.exec_deviceOpen name with he | ⟨e, dev, -, hdev, -, he⟩ <;>
    rw [hopen.2.symm.trans he |> Except.ok.inj] at hd ⊢
  · exact absurd (congrArg List.length hd) (by simp)
  · obtain rfl := (List.cons.inj hd).1
    have hdev' : s.devs e = some dev := hdev
    have hf := hs.fits hdev'
    have hw : gintWrap dev.refcnt = dev.refcnt :=
      gintWrap_eq_self (by unfold gintMax at hf ⊢; omega) (Int.le_of_lt hf.2)
    refine ⟨List.mem_cons_self _ _, ?_⟩
    simp [exec, deviceClose, deviceUnref, World.deref, World.setDev, hw,
      show dev.refcnt ≠ 0 by omega, Function.update_eq_self_iff, hdev']

theorem open_close_restores_ready :
    Step openedA (.deviceClose 0) { readyA with out := [] } :=
  open_close_restores readyA_reachable
    (by exact ⟨by decide, rfl⟩ : Step readyA (.deviceOpen "A") openedA) rfl

/-- What a step does to halted records and to stale requests. -/
structure HaltedLaws (s : World) : Prop where
  /-- Every allowed step runs the capability handler only on live records that are not
  halted: it never dies dereferencing a freed record (its only faults are benign), and each
  handler it runs is on such a record. -/
  callback : ∀ a, a.Allowed s → Returns (fun s' => ∀ d, Event.capsCallback d ∈ s'.out →
    ∃ dev, s.devs d = some dev ∧ dev.flags.halted = false) (exec a { s with out := [] })
  /-- A halted record stays halted and not ready, gets no request and no second
  `device_del`. -/
  halted : ∀ a s' d dev, Step s a s' → s.devs d = some dev → dev.flags.halted = true →
    (∀ dev', s'.devs d = some dev' → dev'.flags.halted = true ∧ dev'.flags.ready = false) ∧
    (∀ m, Event.httpGet d m ∉ s'.out) ∧ Event.del d ∉ s'.out
  /-- The completion of a request of a halted or freed record changes no record and no
  entry of the table. -/
  stale : ∀ a s' m msg, Step s a s' → (a = .httpCancelled m ∨ ∃ r, a = .httpComplete m r) →
    s.msgs m = some msg → (∀ dev, s.devs msg.dev = some dev → dev.flags.halted = true) →
    s'.devs = s.devs ∧ s'.table = s.table

/-- **What every step from a reachable state does to halted records.** -/
theorem halted_laws (h : Reachable s) : HaltedLaws s := by
  have hs := inv_of_reachable h
  have ht : ∀ a s', Step s a s' → Touches { s with out := [] } s' := fun _ _ => Step.touches h
  have hlisted : ∀ d dev, s.devs d = some dev → dev.flags.halted = true →
      dev.flags.listed = false := fun d dev hd hh => by
    simp [(hs.2 d dev hd).ok.listed_iff, hh]
  refine ⟨fun a ha => (touches_step hs ha).mono fun s' ht' d hd => ?_,
    fun a s' d dev hstep hd hh => ?_, fun a s' m msg hstep ha hmsg hh => ?_⟩
  · obtain ⟨dev, hd', hl⟩ := ht'.events _ hd
    exact ⟨dev, hd', by simpa [(hs.2 d dev hd').ok.halted_eq] using hl⟩
  · have hl := hlisted d dev hd hh
    have hnot : ¬({ s with out := [] } : World).Listed d := fun ⟨dev', h1, h2⟩ => by
      rw [hd] at h1
      cases h1
      simp [hl] at h2
    refine ⟨fun dev' hd' => ?_, fun m hm => ?_, fun hm => hnot ((ht a s' hstep).events _ hm)⟩
    · rw [((ht a s' hstep).devs d dev' hd').flags dev hd hl]
      exact ⟨hh, (hs.2 d dev hd).ok.halted_ready hh⟩
    · rcases (ht a s' hstep).events _ hm with h1 | h1
      · exact hnot h1
      · rw [hd] at h1
        cases h1
  · rcases ha with rfl | ⟨r, rfl⟩
    · rw [Except.ok.inj (hstep.2.symm.trans
        (exec_httpCancelled (s := { s with out := [] }) hmsg))]
      exact ⟨rfl, rfl⟩
    · obtain ⟨msg', dev, hmsg', hd, hl, -⟩ := hs.1.inflight m hstep.1.1
      rw [hmsg] at hmsg'
      cases hmsg'
      simp [hlisted _ dev hd (hh dev hd)] at hl

theorem halted_laws_mixed : HaltedLaws mixed := halted_laws mixed_reachable

/-! ## 4. The wake-ups of `device_list_get` -/

/-- What the wait of `device_list_get` reads of `s` is still in `w`: the initial scan, and
every listed record with its flags.  `nextDev` only grows, so keys above it stay fresh. -/
structure KeepsWait (s w : World) : Prop where
  initScan : w.initScan = s.initScan
  listed : ∀ d dev, s.devs d = some dev → dev.flags.listed = true →
    ∃ y, w.devs d = some y ∧ y.flags = dev.flags
  nextDev : s.nextDev ≤ w.nextDev

section Keeps

variable {w v : World} {d : Nat} {x dev : Device}

open Function (update update_same update_noteq)

theorem KeepsWait.refl (s : World) : KeepsWait s s :=
  ⟨rfl, fun _ dev hd _ => ⟨dev, hd, rfl⟩, le_rfl⟩

theorem KeepsWait.congr (h : KeepsWait s w) (hi : v.initScan = w.initScan)
    (hd : v.devs = w.devs) (hn : v.nextDev = w.nextDev) : KeepsWait s v :=
  ⟨hi ▸ h.initScan, hd ▸ h.listed, hn ▸ h.nextDev⟩

/-- A world that differs from `w` only at `d`, where a listed record of `s` keeps its flags. -/
theorem KeepsWait.at (h : KeepsWait s w) (hi : v.initScan = w.initScan)
    (hdevs : ∀ e, e ≠ d → v.devs e = w.devs e) (hn : w.nextDev ≤ v.nextDev)
    (hat : ∀ dev, s.devs d = some dev → dev.flags.listed = true →
      ∃ y, v.devs d = some y ∧ y.flags = dev.flags) : KeepsWait s v := by
  refine ⟨hi.trans h.initScan, fun e dev he hl => ?_, h.nextDev.trans hn⟩
  by_cases hed : e = d
  · exact hed ▸ hat dev (hed ▸ he) hl
  · rw [hdevs e hed]
    exact h.listed e dev he hl

/-- A write to `d` that keeps the flags of its record. -/
theorem KeepsWait.setDev (h : KeepsWait s w) (hd : w.devs d = some dev)
    (hf : x.flags = dev.flags) : KeepsWait s (w.setDev d x) :=
  h.at rfl (fun _ he => update_noteq he _ _) le_rfl fun dev' hd' hl => by
    obtain ⟨y, hy, hy'⟩ := h.listed d dev' hd' hl
    rw [hd, Option.some.injEq] at hy
    cases hy
    exact ⟨x, update_same _ _ _, hf.trans hy'⟩

/-- A new record at `w.nextDev`, and its request. -/
theorem KeepsWait.added (h : KeepsWait s w) (hn : s.devs w.nextDev = none) {name : String}
    {y : Device} {url : SoupUri} :
    KeepsWait s ((w.added name x).queued w.nextDev y url) :=
  h.at (d := w.nextDev) rfl (fun e he => by simp [World.queued, World.added, update_noteq he])
    (Nat.le_succ _) fun _ hd' => nomatch hn.symm.trans hd'

/-- The free of an unlisted record by `device_unref`. -/
theorem KeepsWait.free (h : KeepsWait s w) (hd : w.devs d = some dev)
    (hl : dev.flags.listed = false) :
    KeepsWait s { w with devs := update w.devs d none, out := w.out ++ [.destroy d] } :=
  h.at rfl (fun _ he => update_noteq he _ _) le_rfl fun dev' hd' hl' => by
    obtain ⟨y, hy, hy'⟩ := h.listed d dev' hd' hl'
    rw [hd, Option.some.injEq] at hy
    cases hy
    rw [hy', hl'] at hl
    cases hl

end Keeps

/-- What `device_list_get` waits for, read off the records: the initial scan is over and no
listed record waits. -/
theorem Inv.listWaitDone_iff (hs : Inv s) :
    deviceListWaitDone s = .ok true ↔ s.initScan = false ∧
      ∀ d dev, s.devs d = some dev → dev.flags.listed = true → dev.flags.initWait = false := by
  simp only [deviceListWaitDone, deviceTableReady_eq hs.1.tableLive, ok_bind, pure,
    Except.pure, Except.ok.injEq, Bool.and_eq_true, beq_iff_eq, List.length_eq_zero,
    List.eq_nil_iff_forall_not_mem, hs.mem_collected, DeviceFlags.initWait_meets,
    Bool.not_eq_true', not_exists, not_and, Bool.not_eq_true]
  exact and_comm

/-- A step that keeps what the wait reads does not end it. -/
theorem KeepsWait.waitDone {w : World} (h : KeepsWait s w) (hs : Inv s) (hw : Inv w)
    (hd : deviceListWaitDone w = .ok true) : deviceListWaitDone s = .ok true := by
  obtain ⟨hi, hl⟩ := hw.listWaitDone_iff.mp hd
  refine hs.listWaitDone_iff.mpr ⟨h.initScan ▸ hi, fun d dev hdev hl' => ?_⟩
  obtain ⟨y, hy, hf⟩ := h.listed d dev hdev hl'
  exact hf ▸ hl d y hy (hf ▸ hl')

/-- `device_management_start` adds records and keeps the others. -/
theorem KeepsWait.started (hs : Inv s) (conf : List ConfDevice) :
    Returns (KeepsWait s) (exec (.managementStart conf) s) := by
  have h0 : KeepsWait s { s with running := true, inflight := [] } :=
    (KeepsWait.refl s).congr rfl rfl rfl
  refine returns_foldlM (P := KeepsWait s) (fun w c h => ?_) conf h0
  cases hf : deviceFind c.name w with
  | some d =>
    rw [deviceAddStatic_of_listed hf]
    exact h
  | none => exact returns_deviceAddStatic hf fun _ _ => h.added (hs.1.devFresh _ h.nextDev)

/-- `device_found` adds a record, or changes nothing. -/
theorem KeepsWait.found (hs : Inv s) (name : String) (b : Bool) (as : List ZeroconfAddrinfo) :
    Returns (KeepsWait s) (exec (.found name b as) s) := by
  cases hf : deviceFind name s with
  | some d =>
    rw [exec, deviceFound_of_listed hf]
    exact KeepsWait.refl s
  | none =>
    exact returns_deviceFound hf fun _ _ _ _ _ _ =>
      (KeepsWait.refl s).added (hs.1.devFresh _ le_rfl)

/-- `device_open` takes a reference, which keeps the flags, or changes nothing. -/
theorem KeepsWait.opened (hs : Inv s) (name : String) :
    Returns (KeepsWait s) (exec (.deviceOpen name) s) := by
  rcases hs.exec_deviceOpen name with he | ⟨d, dev, -, hd, -, he⟩ <;> rw [he]
  · exact KeepsWait.refl s
  · exact ((KeepsWait.refl s).setDev (x := { dev with refcnt := dev.refcnt + 1 }) hd rfl).congr
      rfl rfl rfl

/-- `device_close` drops a reference and keeps the flags, or frees an unlisted record. -/
theorem KeepsWait.closed (hs : Inv s) (hd : d ∈ s.handles) :
    Returns (KeepsWait s) (exec (.deviceClose d) s) := by
  obtain ⟨dev, hdev⟩ := Option.ne_none_iff_exists'.mp (hs.1.handles d hd)
  have h1 : KeepsWait s { s with handles := s.handles.erase d } :=
    (KeepsWait.refl s).congr rfl rfl rfl
  refine returns_deviceUnref hdev (hs.fits hdev) (fun hr => ?_) fun _ => h1.setDev hdev rfl
  have hl := (hs.2 d dev hdev).unlisted_of_last hd hr
  exact ⟨hl, by rw [(hs.2 d dev hdev).ok.halted_eq, hl]; rfl, h1.free hdev hl⟩

/-- The capability handler ends with `g_cond_broadcast` on every path: after probing the next
address, after `device_del`, and after the record became ready. -/
theorem Inv.completed_broadcasts (hs : Inv s) {m : Nat} {r : Reply} {s' : World}
    (hm : m ∈ s.inflight) (hr : r.status ≠ soupStatusCancelled)
    (he : exec (.httpComplete m r) s = .ok s') : Event.broadcast ∈ s'.out := by
  obtain ⟨msg, dev, hmsg, hd, hl, -⟩ := hs.1.inflight m hm
  have hd2 := replied_devs_self (s := s) m msg r dev
  have hb : ∀ w : World, Event.broadcast ∈ (w.emit .broadcast).out := fun w => by simp
  refine (returns_deviceScannerCapabilitiesCallback (P := fun w => Event.broadcast ∈ w.out) hd2
    (fun _ _ _ _ _ => returns_deviceProbeAddress hd2 fun _ _ _ _ _ _ => hb _)
    (fun _ _ _ => ?_) fun _ _ _ _ _ _ => hb _).of_ok ((exec_httpComplete hmsg hd hr).symm.trans he)
  rw [deviceDel_eq_ok (s := (s.replied m msg r dev).emit (.capsCallback msg.dev)) hd2 hl
      (hs.fits hd :)]
  exact hb _

/-- **Every step that ends the wait of `device_list_get` wakes it, except two.**  From a
reachable state, a step after which the predicate `device_list_get` waits for holds, when it
did not before, calls `g_cond_broadcast`, or is `device_removed` or
`device_management_stop`: `device_del` does not broadcast, and these are the steps that call
it outside the capability handler. -/
theorem wait_end_broadcasts_unless_removed {a : Action} {s' : World} (h : Reachable s)
    (hstep : Step s a s') (hb : deviceListWaitDone s = .ok false)
    (ha : deviceListWaitDone s' = .ok true) :
    Event.broadcast ∈ s'.out ∨ (∃ name, a = .removed name) ∨ a = .managementStop := by
  have hs0 : Inv { s with out := [] } := inv_with_out (o := []) |>.mpr (inv_of_reachable h)
  -- a step that keeps what the wait reads cannot end it
  have hkeep (hk : Returns (KeepsWait { s with out := [] }) (exec a { s with out := [] })) :
      False := by
    have := (hk.of_ok hstep.2).waitDone hs0 (inv_of_reachable (h.step hstep)) ha
    exact absurd (this.symm.trans hb) (by simp)
  cases a with
  | managementStop => exact .inr (.inr rfl)
  | removed name => exact .inr (.inl ⟨name, rfl⟩)
  | initScanFinished =>
    rw [← Except.ok.inj hstep.2]
    exact .inl (by simp [exec, deviceInitScanFinished])
  | httpComplete m r => exact .inl (hs0.completed_broadcasts hstep.1.1 hstep.1.2 hstep.2)
  | managementStart conf => exact (hkeep (KeepsWait.started hs0 conf)).elim
  | found name b as => exact (hkeep (KeepsWait.found hs0 name b as)).elim
  | httpCancelled m =>
    obtain ⟨msg, hmsg⟩ := Option.ne_none_iff_exists'.mp (hs0.1.finishing m hstep.1)
    refine (hkeep ?_).elim
    rw [exec_httpCancelled hmsg]
    exact (KeepsWait.refl _).congr rfl rfl rfl
  | deviceOpen name => exact (hkeep (KeepsWait.opened hs0 name)).elim
  | deviceClose d => exact (hkeep (KeepsWait.closed hs0 hstep.1)).elim

theorem wait_end_broadcasts_ready :
    Event.broadcast ∈ ((scanOverA.run [.httpComplete 0 capsReply]).getD scanOverA).out ∨
      (∃ name, Action.httpComplete 0 capsReply = .removed name) ∨
      Action.httpComplete 0 capsReply = .managementStop :=
  wait_end_broadcasts_unless_removed scanOverA_reachable
    (by exact ⟨by decide, rfl⟩ : Step scanOverA (.httpComplete 0 capsReply) _) rfl rfl

end AirscanDevice
