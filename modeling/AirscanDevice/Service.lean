/-
# The registry of the design, and the code refining it

The design describes device management as a registry: a map from device names to devices,
each in a phase of its negotiation machine (`Negotiation.lean`), changed by five operations --
`onDeviceFound` inserts a device probing its first address unless the name is present,
`onDeviceRemoved` drops the name, a capability reply moves the device along `Phase.onReply`
and drops it once it is `Removed`, the start of the session adds the configured devices the
same way as `onDeviceFound`, and its stop purges everything.  `RegEvent.apply` is that
registry, written from the design and not from the source.

`World.registry` reads it off a state: the entry of a name is the phase and the number of
addresses of the record `device_table` holds under it.  `World.regEvent` names the operation
an action is, for a completion the name of the record whose request it completes.

`registry_refines`: **every step from a reachable state is the registry operation its
action names**, and changes no other name.  One lemma per call comes first, over the
world each call returns (`Spec.lean`); the frame lemmas of section 2 say what a write to one
record, an insertion and a removal do to the registry.
-/
import AirscanDevice.Refinement
import AirscanDevice.Registry

namespace AirscanDevice

open Function (update update_same update_noteq)

/-! ## 1. The registry of the design -/

/-- A device as the registry sees it: its negotiation phase and the number of addresses it
can be probed at. -/
structure RegEntry where
  phase : Phase
  count : Nat
  deriving DecidableEq, Repr

/-- `onDeviceFound`: ignored if the name is present, else a device probing the first of its
`count` addresses. -/
def regFound (R : String → Option RegEntry) (name : String) (count : Nat) :
    String → Option RegEntry :=
  if R name = none then update R name (some ⟨.probing 0, count⟩) else R

/-- A capability reply to the device of `name`: the transition the design prescribes, and out
of the registry once `Removed`. -/
def regReply (R : String → Option RegEntry) (name : String) (ok : Bool) :
    String → Option RegEntry :=
  match R name with
  | some e =>
    let q := e.phase.onReply e.count ok
    update R name (if q = .removed then none else some ⟨q, e.count⟩)
  | none => R

/-- The operations of the registry. -/
inductive RegEvent
  /-- The session starts with the configured devices, one address each. -/
  | start (names : List String)
  /-- The session stops: every device is removed. -/
  | stop
  /-- `onDeviceFound` with `count` addresses. -/
  | found (name : String) (count : Nat)
  /-- `onDeviceRemoved`. -/
  | removed (name : String)
  /-- The capability request of the device completed. -/
  | reply (name : String) (ok : Bool)
  /-- Nothing the registry sees. -/
  | skip

/-- What an operation does to the registry. -/
def RegEvent.apply : RegEvent → (String → Option RegEntry) → String → Option RegEntry
  | .start names, R => names.foldl (fun R n => regFound R n 1) R
  | .stop, _ => fun _ => none
  | .found name count, R => regFound R name count
  | .removed name, R => update R name none
  | .reply name ok, R => regReply R name ok
  | .skip, R => R

/-! ## 2. The registry of a state -/

/-- The entry of a record. -/
def Device.regEntry (dev : Device) : RegEntry := ⟨dev.phase, dev.addrCount⟩

/-- The registry a state shows: for each name, the entry of the record `device_table` holds
under it. -/
def World.registry (s : World) (n : String) : Option RegEntry :=
  (gTreeLookup n s.table).bind fun d => (s.devs d).map Device.regEntry

/-- The operation an action is. -/
def World.regEvent (s : World) : Action → RegEvent
  | .managementStart conf => .start (conf.map ConfDevice.name)
  | .managementStop => .stop
  | .found name _ addresses => .found name addresses.length
  | .removed name => .removed name
  | .httpComplete m r =>
    match (s.msgs m).bind fun msg => s.devs msg.dev with
    | some dev => .reply dev.name r.ok
    | none => .skip
  | _ => .skip

section Frame

variable {s w : World} {name n : String} {d : Nat}

/-- The registry reads the table and the records it holds, nothing else. -/
theorem registry_congr (ht : w.table = s.table)
    (he : ∀ n e, (n, e) ∈ s.table →
      (w.devs e).map Device.regEntry = (s.devs e).map Device.regEntry) :
    w.registry = s.registry := by
  funext n
  simp only [World.registry, ht]
  cases hl : gTreeLookup n s.table with
  | none => rfl
  | some e => exact he n e (mem_of_gTreeLookup_eq_some hl)

/-- Away from the name of `d`, the records other than `d` give the entries. -/
theorem registry_frame (huniq : ∀ n, (n, d) ∈ s.table → n = name) (hn : n ≠ name)
    (hd : ∀ e, e ≠ d → w.devs e = s.devs e) :
    (gTreeLookup n s.table).bind (fun e => (w.devs e).map Device.regEntry) = s.registry n := by
  unfold World.registry
  cases hl : gTreeLookup n s.table with
  | none => rfl
  | some e =>
    have he : e ≠ d := fun h => hn (huniq n (h ▸ mem_of_gTreeLookup_eq_some hl))
    rw [Option.some_bind, Option.some_bind, hd e he]

/-- A write to the record of the table at `d`: the entry of its name is the new record's. -/
theorem registry_setAt (hs : GTreeSorted s.table) (hmem : (name, d) ∈ s.table)
    (huniq : ∀ n, (n, d) ∈ s.table → n = name) (ht : w.table = s.table)
    (hd : ∀ e, e ≠ d → w.devs e = s.devs e) :
    w.registry = update s.registry name ((w.devs d).map Device.regEntry) := by
  funext n
  by_cases hn : n = name
  · subst hn
    simp [World.registry, ht, (gTreeLookup_eq_some_iff hs).mpr hmem]
  · rw [update_noteq hn, World.registry, ht]
    exact registry_frame huniq hn hd

/-- The removal of the entry of `name`, whose record is at `d`. -/
theorem registry_removeAt (hs : GTreeSorted s.table) (huniq : ∀ n, (n, d) ∈ s.table → n = name)
    (ht : w.table = gTreeRemove name s.table) (hd : ∀ e, e ≠ d → w.devs e = s.devs e) :
    w.registry = update s.registry name none := by
  funext n
  by_cases hn : n = name
  · subst hn
    simp [World.registry, ht, gTreeLookup_remove_self hs]
  · rw [update_noteq hn, World.registry, ht, gTreeLookup_remove_of_ne hs hn]
    exact registry_frame huniq hn hd

/-- The insertion of `name` for a record at a key the table does not hold. -/
theorem registry_insertAt (hs : GTreeSorted s.table) (hf : gTreeLookup name s.table = none)
    (hfresh : ∀ n, (n, d) ∉ s.table) (ht : w.table = gTreeInsert name d s.table)
    (hd : ∀ e, e ≠ d → w.devs e = s.devs e) :
    w.registry = update s.registry name ((w.devs d).map Device.regEntry) := by
  funext n
  by_cases hn : n = name
  · subst hn
    simp [World.registry, ht, gTreeLookup_insert_self hs hf]
  · rw [update_noteq hn, World.registry, ht, gTreeLookup_insert_of_ne hs hf hn]
    exact registry_frame (fun n h => absurd h (hfresh n)) hn hd

/-- An entry names the record under its key. -/
theorem WorldOk.name_eq_of_mem (hw : WorldOk s) {n' : String} (h : (n, d) ∈ s.table)
    (h' : (n', d) ∈ s.table) : n' = n := by
  obtain ⟨x, hx, hxn, -⟩ := hw.entry n d h
  obtain ⟨y, hy, hyn, -⟩ := hw.entry n' d h'
  rw [← hxn, ← hyn, Option.some.inj (hy.symm.trans hx)]

/-- The entry of a listed record. -/
theorem Inv.registry_of_listed (hs : Inv s) {dev : Device} (hd : s.devs d = some dev)
    (hl : dev.flags.listed = true) : s.registry dev.name = some dev.regEntry := by
  simp [World.registry, (gTreeLookup_eq_some_iff hs.1.sorted).mpr ((hs.2 d dev hd).inTable hl),
    hd]

end Frame

/-! ## 3. One lemma per call -/

section Calls

variable {s s' : World}

theorem Device.found_regEntry {name : String} {b : Bool} {addrs : List ZeroconfAddrinfo}
    {base : SoupUri} (ha : addrs ≠ []) :
    ({ Device.found name b addrs with addrCurrent := some 0, baseUrl := some base } :
      Device).regEntry = ⟨.probing 0, addrs.length⟩ := by
  have : addrs.length - 1 + 1 = addrs.length := Nat.sub_add_cancel (List.length_pos.mpr ha)
  simp [Device.regEntry, Device.phase, Device.found, Device.new, Device.probeIndex,
    Device.addrCount, Device.lastIndex, this]

/-- A key `device_add` hands out is in no entry. -/
theorem WorldOk.not_mem_nextDev (hw : WorldOk s) (n : String) : (n, s.nextDev) ∉ s.table :=
  fun h => by
    obtain ⟨dev, hd, -⟩ := hw.entry n _ h
    rw [hw.devFresh _ le_rfl] at hd
    cases hd

/-- A name the table holds: `onDeviceFound` changes nothing. -/
theorem Inv.regFound_of_find (hs : Inv s) {name : String} {d : Nat}
    (hf : deviceFind name s = some d) (c : Nat) : regFound s.registry name c = s.registry := by
  obtain ⟨dev, hd, hn, hl⟩ := hs.1.entry name d (mem_of_gTreeLookup_eq_some hf)
  rw [regFound, if_neg (by rw [← hn, hs.registry_of_listed hd hl]; exact Option.some_ne_none _)]

/-- A new name: `device_add` and the first request enter the new record in `ProbingAddress(0)`
with `c` addresses. -/
theorem Inv.registry_added (hs : Inv s) {name : String} (hf : deviceFind name s = none)
    {x y : Device} {url : SoupUri} {c : Nat} (hy : y.regEntry = ⟨.probing 0, c⟩) :
    ((s.added name x).queued s.nextDev y url).registry = regFound s.registry name c := by
  have hR : s.registry name = none := by
    simp [World.registry, show gTreeLookup name s.table = none from hf]
  rw [regFound, if_pos hR]
  refine (registry_insertAt hs.1.sorted hf hs.1.not_mem_nextDev (by rfl)
    fun e he => by simp [World.queued, World.added, update_noteq he]).trans ?_
  simp only [World.queued, World.added, update_same, Option.map_some']
  exact congrArg _ (congrArg _ hy)

/-- `device_found`: `onDeviceFound` with the addresses it was given. -/
theorem Inv.registry_found (hs : Inv s) {name : String} {b : Bool}
    {as : List ZeroconfAddrinfo} (he : deviceFound name b as s = .ok s') :
    s'.registry = regFound s.registry name as.length := by
  cases hf : deviceFind name s with
  | some d =>
    rw [deviceFound_of_listed hf, Except.ok.injEq] at he
    rw [← he, hs.regFound_of_find hf]
  | none =>
    refine (returns_deviceFound (P := fun w => w.registry = regFound s.registry name as.length)
      hf fun a _ _ ha _ _ => hs.registry_added hf (Device.found_regEntry ?_)).of_ok he
    rintro rfl
    cases ha

/-- `device_add_static`: `onDeviceFound` with one address. -/
theorem Inv.registry_addStatic (hs : Inv s) {name : String} {uri : SoupUri}
    (he : deviceAddStatic name uri s = .ok s') : s'.registry = regFound s.registry name 1 := by
  cases hf : deviceFind name s with
  | some d =>
    rw [deviceAddStatic_of_listed hf, Except.ok.injEq] at he
    rw [← he, hs.regFound_of_find hf]
  | none =>
    exact (returns_deviceAddStatic (P := fun w => w.registry = regFound s.registry name 1)
      hf fun _ _ => hs.registry_added hf rfl).of_ok he

/-- The loop of `device_management_start`: `onDeviceFound` for each configured name. -/
theorem registry_start : ∀ (conf : List ConfDevice) (w w' : World), Inv w → w.running = true →
    conf.foldlM (fun s c => deviceAddStatic c.name c.uri s) w = .ok w' →
    w'.registry = (conf.map ConfDevice.name).foldl (fun R n => regFound R n 1) w.registry
  | [], w, w', _, _, he => by cases he; rfl
  | c :: conf, w, w', hw, hrun, he => by
    rw [List.foldlM_cons] at he
    obtain ⟨w₁, h1, h2⟩ := bind_eq_ok.mp he
    obtain ⟨hw₁, hrun₁⟩ := (hw.addStatic hrun c.name c.uri).of_ok h1
    rw [registry_start conf w₁ w' hw₁ hrun₁ h2, hw.registry_addStatic h1]
    rfl

/-- `device_removed`: `onDeviceRemoved`. -/
theorem Inv.registry_removed (hs : Inv s) {name : String} (he : deviceRemoved name s = .ok s') :
    s'.registry = update s.registry name none := by
  cases hf : deviceFind name s with
  | none =>
    simp only [deviceRemoved, hf] at he
    cases he
    funext n
    by_cases hn : n = name
    · subst hn
      simp [World.registry, show gTreeLookup n s.table = none from hf]
    · rw [update_noteq hn]
  | some d =>
    have hmem := mem_of_gTreeLookup_eq_some hf
    obtain ⟨dev, hd, hn, hl⟩ := hs.1.entry name d hmem
    simp only [deviceRemoved, hf, deviceDel_eq_ok hd hl (hs.fits hd), Except.ok.injEq] at he
    subst he
    rw [← hn]
    exact registry_removeAt hs.1.sorted (fun n' h => hn ▸ hs.1.name_eq_of_mem hmem h)
      (deleted_table _ _ _) fun e he => by simp [update_noteq he]

/-- A record with the same flags, address and addresses has the same entry. -/
theorem Device.regEntry_congr {x y : Device} (hf : x.flags = y.flags)
    (ha : x.addrCurrent = y.addrCurrent) (hadd : x.addresses = y.addresses) :
    x.regEntry = y.regEntry := by
  simp only [Device.regEntry, Device.phase, Device.probeIndex, Device.addrCount,
    Device.lastIndex, hf, ha, hadd]

/-- The capability callback: the reply operation for the name of the record whose request
completed. -/
theorem Inv.registry_completed (hs : Inv s) {m : Nat} {r : Reply} (hm : m ∈ s.inflight)
    (hr : r.status ≠ soupStatusCancelled) {msg : Msg} {dev : Device}
    (hmsg : s.msgs m = some msg) (hd : s.devs msg.dev = some dev)
    (he : exec (.httpComplete m r) s = .ok s') :
    s'.registry = regReply s.registry dev.name r.ok := by
  obtain ⟨msg', dev', hmsg', hd', hl, hp⟩ := hs.1.inflight m hm
  cases hmsg.symm.trans hmsg'
  cases hd.symm.trans hd'
  obtain ⟨hh, hrd, -⟩ := (hs.2 _ _ hd).probing_of_pending hl hp
  have hmem := (hs.2 _ _ hd).inTable hl
  have huniq : ∀ n, (n, msg.dev) ∈ s.table → n = dev.name :=
    fun n h => hs.1.name_eq_of_mem hmem h
  have hR : s.registry dev.name = some ⟨.probing dev.probeIndex, dev.addrCount⟩ := by
    rw [hs.registry_of_listed hd hl, Device.regEntry, Device.phase_of_probing hh hrd]
  have hd2 := replied_devs_self (s := s) m msg r dev
  refine (returns_deviceScannerCapabilitiesCallback
    (P := fun w => w.registry = regReply s.registry dev.name r.ok) hd2
    (fun _ i hres hi hn => ?_) (fun _ hres hlast => ?_) fun caps src opt hres _ _ => ?_).of_ok
    ((exec_httpComplete hmsg hd hr).symm.trans he)
  · refine returns_deviceProbeAddress hd2 fun _ b _ _ _ _ => ?_
    refine (registry_setAt hs.1.sorted hmem huniq (by rfl) fun e he => by
      simp [World.queued, World.replied, update_noteq he]).trans ?_
    have hk : i + 1 < dev.addrCount := by
      have : i + 1 < dev.addresses.length := hn
      unfold Device.addrCount Device.lastIndex
      omega
    have hq : (Phase.probing dev.probeIndex).onReply dev.addrCount r.ok = .probing (i + 1) := by
      simp [Phase.onReply, Reply.ok_eq_false hres, Device.probeIndex,
        show dev.addrCurrent = some i from hi, hk]
    rw [show regReply s.registry dev.name r.ok =
        update s.registry dev.name (some ⟨.probing (i + 1), dev.addrCount⟩) by
      simp [regReply, hR, hq]]
    simp [World.queued, Device.regEntry, Device.phase, hh, hrd, Device.probeIndex,
      Device.addrCount, Device.lastIndex]
  · rw [deviceDel_eq_ok (s := (s.replied m msg r dev).emit (.capsCallback msg.dev)) hd2 hl
      (hs.fits hd :)]
    refine (registry_removeAt hs.1.sorted huniq (by simp [World.replied]) fun e he => by
      simp [World.replied, update_noteq he]).trans ?_
    have hq : (Phase.probing dev.probeIndex).onReply dev.addrCount r.ok = .removed := by
      simp [Phase.onReply, Reply.ok_eq_false hres, (hs.2 _ _ hd).ok.no_next hlast]
    simp [regReply, hR, hq]
  · refine (registry_setAt hs.1.sorted hmem huniq (by rfl) fun e he => by
      simp [World.replied, update_noteq he]).trans ?_
    rw [show regReply s.registry dev.name r.ok =
      update s.registry dev.name (some ⟨.negotiated dev.probeIndex, dev.addrCount⟩) by
        simp [regReply, hR, Phase.onReply, Reply.ok_eq_true hres]]
    simp [World.setDev, Device.ready, Device.regEntry, Device.phase, hh, Device.probeIndex,
      Device.addrCount, Device.lastIndex]

/-- A write that keeps the entry of the record. -/
theorem registry_setDev {d : Nat} {x dev : Device} (hd : s.devs d = some dev)
    (hx : x.regEntry = dev.regEntry) : (s.setDev d x).registry = s.registry :=
  registry_congr rfl fun _ e _ => by
    by_cases hed : e = d
    · subst hed
      simp only [World.setDev, update_same, hd, Option.map_some', hx]
    · simp [World.setDev, update_noteq hed]

/-- `device_open`: no entry changes. -/
theorem Inv.registry_opened (hs : Inv s) {name : String} (he : exec (.deviceOpen name) s = .ok s') :
    s'.registry = s.registry := by
  rcases hs.exec_deviceOpen name with h | ⟨d, dev, -, hd, -, h⟩ <;> rw [h] at he <;> cases he
  · rfl
  · exact registry_setDev hd (Device.regEntry_congr rfl rfl rfl)

/-- `device_close`: no entry changes; a record it frees is not in the table. -/
theorem Inv.registry_closed (hs : Inv s) {d : Nat} (hd : d ∈ s.handles)
    (he : exec (.deviceClose d) s = .ok s') : s'.registry = s.registry := by
  obtain ⟨dev, hdev⟩ := Option.ne_none_iff_exists'.mp (hs.1.handles d hd)
  refine (returns_deviceUnref (s := { s with handles := s.handles.erase d })
    (P := fun w => w.registry = s.registry) hdev (hs.fits hdev) (fun hr => ?_)
    fun _ => registry_setDev hdev (Device.regEntry_congr rfl rfl rfl)).of_ok he
  have hl := (hs.2 d dev hdev).unlisted_of_last hd hr
  refine ⟨hl, by rw [(hs.2 d dev hdev).ok.halted_eq, hl]; rfl,
    registry_congr rfl fun n e hne => ?_⟩
  have hed : e ≠ d := by
    rintro rfl
    obtain ⟨x, hx, -, hxl⟩ := hs.1.entry n e hne
    rw [hdev] at hx
    cases hx
    simp [hl] at hxl
  simp [update_noteq hed]

end Calls

/-! ## 4. The refinement -/

/-- **The code refines the registry of the design.**  Every step from a reachable state
changes the registry it shows exactly as the operation its action names: the start adds the
configured names, `device_found` inserts a device probing its first address unless the name
is present, `device_removed` drops the name, the completion of a capability request moves
the device of the request as `Phase.onReply` prescribes and drops it once `Removed`, the stop
empties the registry, and every other step leaves it. -/
theorem registry_refines {s s' : World} {a : Action} (h : Reachable s) (hstep : Step s a s') :
    s'.registry = (s.regEvent a).apply s.registry := by
  have hs : Inv { s with out := [] } := inv_with_out.mpr (inv_of_reachable h)
  obtain ⟨ha, he⟩ := hstep
  cases a with
  | managementStart conf =>
    exact registry_start conf { s with out := [], running := true, inflight := [] }
      s' (hs.started ha) rfl he
  | managementStop =>
    rw [exec, deviceManagementStop_eq hs] at he
    cases he
    funext n
    simp [World.registry, World.purged, gTreeLookup, World.regEvent, RegEvent.apply]
  | found name b as => exact hs.registry_found he
  | removed name => exact hs.registry_removed he
  | initScanFinished =>
    cases he
    rfl
  | httpComplete m r =>
    obtain ⟨msg, dev, hmsg, hd, -, -⟩ := hs.1.inflight m ha.1
    simp only [World.regEvent, show s.msgs m = some msg from hmsg, Option.some_bind,
      show s.devs msg.dev = some dev from hd, RegEvent.apply]
    exact hs.registry_completed ha.1 ha.2 hmsg hd he
  | httpCancelled m =>
    obtain ⟨msg, hmsg⟩ := Option.ne_none_iff_exists'.mp (hs.1.finishing m ha)
    rw [exec_httpCancelled hmsg] at he
    cases he
    rfl
  | deviceOpen name => exact hs.registry_opened he
  | deviceClose d => exact hs.registry_closed ha he

theorem registry_refines_found :
    probingA.registry = (started.regEvent (.found "A" false [addrA none])).apply started.registry :=
  registry_refines started_reachable
    (by exact ⟨rfl, rfl⟩ : Step started (.found "A" false [addrA none]) probingA)

end AirscanDevice
