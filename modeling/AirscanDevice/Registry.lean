/-
# The table, the device list, and stopping

Three views of `device_table` in a reachable state, each a structure of named facts proved
from the invariant:

* `TableLaws`: the search tree holds each name once, under its record's own name, and exactly
  the listed records; so `device_add` never replaces an entry, `device_found` and
  `device_add_static` of a listed name and `device_removed` of an absent one change nothing,
  and `device_del` is only ever called on a listed record (`table_laws`);
* `CollectLaws`: `device_table_collect` returns the listed records whose flags meet the mask,
  once each and in name order, with or without a buffer, and `device_list_get` the ready
  ones (`collect_laws`); `device_open` opens exactly the names that list shows
  (`deviceOpen_matches_list`);
* `StopLaws`: `device_management_stop` deletes every record of the table once, runs no
  handler, and leaves no table and no session (`stop_laws`).
-/
import AirscanDevice.Effects

namespace AirscanDevice

/-! ## 1. The table -/

section Table

variable {s : World}

/-- The ids of a valid table are those of its listed records. -/
theorem Inv.mem_table_ids (hs : Inv s) {d : Nat} :
    d ∈ s.table.map Prod.snd ↔ ∃ dev, s.devs d = some dev ∧ dev.flags.listed = true := by
  constructor
  · intro h
    obtain ⟨p, hp, rfl⟩ := List.mem_map.mp h
    obtain ⟨dev, hd, -, hl⟩ := hs.1.entry p.1 p.2 hp
    exact ⟨dev, hd, hl⟩
  · rintro ⟨dev, hd, hl⟩
    exact List.mem_map.mpr ⟨_, (hs.2 d dev hd).inTable hl, rfl⟩

/-- Two entries of a valid table are two records. -/
theorem WorldOk.table_ids_nodup (hw : WorldOk s) : (s.table.map Prod.snd).Nodup := by
  rw [List.Nodup, List.pairwise_map]
  refine hw.sorted.imp_of_mem fun {a b} ha hb hab he => hab.ne ?_
  obtain ⟨x, hx, hxn, -⟩ := hw.entry a.1 a.2 ha
  obtain ⟨y, hy, hyn, -⟩ := hw.entry b.1 b.2 hb
  rw [he, hy] at hx
  cases hx
  exact hxn.symm.trans hyn

/-- `device_find` finds a listed record under its name. -/
theorem Inv.deviceFind_of_listed (hs : Inv s) {d : Nat} {dev : Device}
    (hd : s.devs d = some dev) (hl : dev.flags.listed = true) : deviceFind dev.name s = some d :=
  (deviceFind_eq_some_iff hs.1.sorted).mpr ((hs.2 d dev hd).inTable hl)

/-- `device_find` finds nothing under a name no listed record has. -/
theorem Inv.deviceFind_eq_none (hs : Inv s) {name : String}
    (hn : ∀ d dev, s.devs d = some dev → dev.flags.listed = true → dev.name ≠ name) :
    deviceFind name s = none :=
  deviceFind_eq_none_iff.mpr fun d hd => by
    obtain ⟨dev, h1, h2, h3⟩ := hs.1.entry name d hd
    exact hn d dev h1 h3 h2

/-- What the table is, and what follows for the calls that read it. -/
structure TableLaws (s : World) : Prop where
  /-- The entries are sorted by `strcmp` of their keys. -/
  sorted : GTreeSorted s.table
  /-- A name has at most one record. -/
  unique : ∀ n d d', (n, d) ∈ s.table → (n, d') ∈ s.table → d = d'
  /-- An entry is a live, listed record under its own name. -/
  entry : ∀ n d, (n, d) ∈ s.table →
    ∃ dev, s.devs d = some dev ∧ dev.name = n ∧ dev.flags.listed = true
  /-- Every live, listed record is the entry of its name. -/
  listed : ∀ d dev, s.devs d = some dev → dev.flags.listed = true → (dev.name, d) ∈ s.table
  /-- A name no listed record has: `device_removed` changes nothing, and `device_add` keeps
  every entry and adds one. -/
  absent : ∀ name, (∀ d dev, s.devs d = some dev → dev.flags.listed = true → dev.name ≠ name) →
    deviceRemoved name s = .ok s ∧
    (deviceAdd name s).2.table.length = s.table.length + 1 ∧
    ∀ p ∈ s.table, p ∈ (deviceAdd name s).2.table
  /-- The name of a listed record: `device_found` and `device_add_static` change nothing. -/
  present : ∀ d dev, s.devs d = some dev → dev.flags.listed = true →
    (∀ b as, deviceFound dev.name b as s = .ok s) ∧ ∀ uri, deviceAddStatic dev.name uri s = .ok s
  /-- The assertion at the head of `device_del` holds at every step. -/
  delListed : ∀ a, a.Allowed s → exec a { s with out := [] } ≠ .error (.assertion .delListed)

/-- **The table of every reachable state.** -/
theorem table_laws (h : Reachable s) : TableLaws s := by
  have hs := inv_of_reachable h
  refine ⟨hs.1.sorted, fun n d d' h1 h2 => hs.1.sorted.val_eq h1 h2, hs.1.entry,
    fun d dev hd hl => (hs.2 d dev hd).inTable hl, fun name hn => ?_,
    fun d dev hd hl => ⟨fun b as => deviceFound_of_listed (hs.deviceFind_of_listed hd hl),
      fun uri => deviceAddStatic_of_listed (hs.deviceFind_of_listed hd hl)⟩,
    fun a ha hf => nomatch (inv_step hs ha).benign hf⟩
  have hf := hs.deviceFind_eq_none hn
  refine ⟨by simp [deviceRemoved, hf], length_gTreeInsert hf, fun p hp => ?_⟩
  exact (mem_gTreeInsert hf).mpr (.inr hp)

theorem table_laws_mixed : TableLaws mixed := table_laws mixed_reachable

end Table

/-! ## 2. Collecting -/

section Collect

variable {s : World}

/-- The records a mask selects from a valid table. -/
theorem Inv.mem_collected (hs : Inv s) {flags : UInt32} {d : Nat} :
    d ∈ s.collected flags ↔
      ∃ dev, s.devs d = some dev ∧ dev.flags.listed = true ∧ flags &&& dev.flags.word ≠ 0 := by
  rw [World.collected, List.mem_filter, hs.mem_table_ids]
  constructor
  · rintro ⟨⟨dev, hd, hl⟩, hm⟩
    exact ⟨dev, hd, hl, by simpa [World.meets_of_some hd] using hm⟩
  · rintro ⟨dev, hd, hl, hm⟩
    exact ⟨⟨dev, hd, hl⟩, by simpa [World.meets_of_some hd] using hm⟩

/-- The collected records are in `strcmp` order of their names. -/
theorem WorldOk.collected_sorted (hw : WorldOk s) (flags : UInt32) :
    (s.collected flags).Pairwise fun d e =>
      ∃ x y, s.devs d = some x ∧ s.devs e = some y ∧ NameLt x.name y.name := by
  refine (List.pairwise_map.mpr (hw.sorted.imp_of_mem fun {a b} ha hb hab => ?_)).sublist
    (List.filter_sublist _)
  obtain ⟨x, hx, hxn, -⟩ := hw.entry a.1 a.2 ha
  obtain ⟨y, hy, hyn, -⟩ := hw.entry b.1 b.2 hb
  exact ⟨x, y, hx, hy, hxn ▸ hyn ▸ hab⟩

/-- The entries of the device list are in `strcmp` order of their names. -/
theorem WorldOk.deviceList_sorted (hw : WorldOk s) :
    s.deviceList.Pairwise fun a b => NameLt a.name b.name := by
  refine List.Pairwise.filterMap _ (fun {d e} hde x hx y hy => ?_) (hw.collected_sorted _)
  obtain ⟨x', y', hx', hy', hlt⟩ := hde
  simp only [hx', hy', Option.map_some', Option.mem_def, Option.some.injEq] at hx hy
  rw [← hx, ← hy]
  exact hlt

/-- What `device_table_collect` and `device_list_get` return. -/
structure CollectLaws (s : World) (flags : UInt32) : Prop where
  /-- The records collected: the listed ones whose flags meet the mask. -/
  mem : ∀ d, d ∈ s.collected flags ↔
    ∃ dev, s.devs d = some dev ∧ dev.flags.listed = true ∧ flags &&& dev.flags.word ≠ 0
  /-- Each once. -/
  nodup : (s.collected flags).Nodup
  /-- In strictly increasing `strcmp` order of name. -/
  sorted : (s.collected flags).Pairwise fun d e =>
    ∃ x y, s.devs d = some x ∧ s.devs e = some y ∧ NameLt x.name y.name
  /-- No more than `device_table_size()`. -/
  bound : (s.collected flags).length ≤ deviceTableSize s
  /-- Without a buffer: the count. -/
  count : deviceTableCollect s flags none = .ok ((s.collected flags).length, none)
  /-- With a buffer that has room: the same count, the records at its front and the rest of it
  as it was. -/
  buffer : ∀ buf : List (Option Nat), (s.collected flags).length ≤ buf.length →
    deviceTableCollect s flags (some buf) = .ok ((s.collected flags).length,
      some ((s.collected flags).map some ++ buf.drop (s.collected flags).length))
  /-- `device_list_get`: the ready listed records, then `NULL`. -/
  listGet : deviceListGet s = .ok (s.deviceList.map some ++ [none])
  /-- The entries of that list: the name, vendor and model of each ready listed record. -/
  listMem : ∀ info, info ∈ s.deviceList ↔
    ∃ d dev, s.devs d = some dev ∧ dev.flags.listed = true ∧ dev.flags.ready = true ∧
      dev.saneDevice = info
  /-- In strictly increasing `strcmp` order of name. -/
  listSorted : s.deviceList.Pairwise fun a b => NameLt a.name b.name
  /-- The loop of `device_list_free` visits exactly those entries. -/
  listFree : deviceListFree (s.deviceList.map some ++ [none]) = some s.deviceList

/-- **`device_table_collect` and `device_list_get`, in every reachable state.** -/
theorem collect_laws (h : Reachable s) (flags : UInt32) : CollectLaws s flags := by
  have hs := inv_of_reachable h
  have hl := hs.1.tableLive
  refine ⟨fun d => hs.mem_collected, hs.1.table_ids_nodup.sublist (List.filter_sublist _),
    hs.1.collected_sorted flags, collected_length_le s flags, deviceTableCollect_none hl flags,
    deviceTableCollect_some hl flags, deviceListGet_eq hl, fun info => ?_,
    hs.1.deviceList_sorted, deviceListFree_eq _⟩
  simp only [World.deviceList, List.mem_filterMap, hs.mem_collected, DeviceFlags.ready_meets]
  constructor
  · rintro ⟨d, ⟨dev, hd, hl, hr⟩, hinfo⟩
    simp only [hd, Option.map_some', Option.some.injEq] at hinfo
    exact ⟨d, dev, hd, hl, hr, hinfo⟩
  · rintro ⟨d, dev, hd, hl, hr, rfl⟩
    exact ⟨d, ⟨dev, hd, hl, hr⟩, by simp [hd]⟩

theorem collect_laws_mixed : CollectLaws mixed deviceReady :=
  collect_laws mixed_reachable deviceReady

/-- The end-to-end run of the design: a device found during the initial scan whose address
answers with two sources is listed once ready, with the first source in `OPT_SOURCE` order
chosen, and the list is empty again once it is removed. -/
example :
    let reply : Reply := ⟨200, some (.ok ⟨some "Vendor", some "Model",
      fun | .platen => some a4Platen | .adfSimplex => some a4Platen | .adfDuplex => none⟩)⟩
    let run := [.managementStart [], .found "Printer1" true [addrA none], .httpComplete 0 reply]
    deviceListGet (World.after true run) =
        .ok [some ⟨"Printer1", some "Vendor", some "Model", "eSCL network scanner"⟩, none] ∧
      ((World.after true run).devs 0).map (fun dev => dev.opt.src) = some (some .platen) ∧
      deviceListGet (World.after true (run ++ [.removed "Printer1"])) = .ok [none] :=
  ⟨rfl, rfl, rfl⟩

/-- The entries `device_list_get` shows: one per ready listed record. -/
theorem Inv.mem_deviceList (hs : Inv s) {info : SaneDevice} :
    some info ∈ s.deviceList.map some ++ [none] ↔
      ∃ d dev, s.devs d = some dev ∧ dev.flags.listed = true ∧ dev.flags.ready = true ∧
        dev.saneDevice = info := by
  simp only [List.mem_append, List.mem_map, Option.some.injEq, exists_eq_right,
    List.mem_singleton, reduceCtorEq, or_false, World.deviceList, List.mem_filterMap,
    hs.mem_collected, DeviceFlags.ready_meets]
  constructor
  · rintro ⟨d, ⟨dev, hd, hl, hr⟩, hinfo⟩
    simp only [hd, Option.map_some', Option.some.injEq] at hinfo
    exact ⟨d, dev, hd, hl, hr, hinfo⟩
  · rintro ⟨d, dev, hd, hl, hr, rfl⟩
    exact ⟨d, ⟨dev, hd, hl, hr⟩, by simp [hd]⟩

/-- **`device_open` opens what `device_list_get` lists.**  In a reachable state,
`device_list_get` returns a list `l`, and `device_open(name)` either returns `NULL` and
changes nothing, when no entry of `l` has that name, or takes a reference to the record whose
entry of `l` has that name and returns it. -/
theorem deviceOpen_matches_list (h : Reachable s) (name : String) :
    ∃ l, deviceListGet s = .ok l ∧
      ((deviceOpen name s = .ok (none, s) ∧ ∀ info, some info ∈ l → info.name ≠ name) ∨
        ∃ d dev, deviceOpen name s =
            .ok (some d, s.setDev d { dev with refcnt := dev.refcnt + 1 }) ∧
          s.devs d = some dev ∧ some dev.saneDevice ∈ l ∧ dev.name = name) := by
  have hs := inv_of_reachable h
  refine ⟨_, deviceListGet_eq hs.1.tableLive, ?_⟩
  cases hf : deviceFind name s with
  | none =>
    refine .inl ⟨by simp [deviceOpen, hf], fun info hinfo hn => ?_⟩
    obtain ⟨d, dev, hd, hl, -, rfl⟩ := hs.mem_deviceList.mp hinfo
    rw [← hn, Device.saneDevice, hs.deviceFind_of_listed hd hl] at hf
    cases hf
  | some d =>
    obtain ⟨dev, hd, rfl, hl⟩ := hs.1.entry name d ((deviceFind_eq_some_iff hs.1.sorted).mp hf)
    cases hr : dev.flags.ready
    · refine .inl ⟨by simp [deviceOpen, hf, World.deref, hd, hr], fun info hinfo hn => ?_⟩
      obtain ⟨e, dev', he, hl', hr', rfl⟩ := hs.mem_deviceList.mp hinfo
      have hde := hs.deviceFind_of_listed he hl'
      rw [show dev'.name = dev.name from hn, hf, Option.some.injEq] at hde
      rw [← hde, hd, Option.some.injEq] at he
      rw [← he, hr] at hr'
      cases hr'
    · exact .inr ⟨d, dev,
        by simp [deviceOpen, hf, World.deref, hd, hr, deviceRef_eq hd (hs.fits hd)], hd,
        hs.mem_deviceList.mpr ⟨d, dev, hd, hl, hr, rfl⟩, rfl⟩

theorem deviceOpen_matches_list_ready :
    ∃ l, deviceListGet readyA = .ok l ∧
      ((deviceOpen "A" readyA = .ok (none, readyA) ∧ ∀ info, some info ∈ l → info.name ≠ "A") ∨
        ∃ d dev, deviceOpen "A" readyA =
            .ok (some d, readyA.setDev d { dev with refcnt := dev.refcnt + 1 }) ∧
          readyA.devs d = some dev ∧ some dev.saneDevice ∈ l ∧ dev.name = "A") :=
  deviceOpen_matches_list readyA_reachable "A"

end Collect

/-! ## 3. Stopping -/

section Stop

variable {s : World}

/-- The record an event deletes. -/
def Event.delOf : Event → Option Nat
  | .del d => some d
  | _ => none

/-- `device_del` deletes the record it is called on, once. -/
theorem filterMap_delOf_delEvents (d : Nat) (dev : Device) :
    (delEvents d dev).filterMap Event.delOf = [d] := by
  unfold delEvents
  split <;> simp [Event.delOf, List.filterMap_map]

/-- The deletions of the stop: one for each record of the table, in key order. -/
theorem filterMap_delOf_purged (hw : WorldOk s) :
    ((soupSessionAbort s).purged.out).filterMap Event.delOf =
      s.out.filterMap Event.delOf ++ s.table.map Prod.snd := by
  simp only [World.purged, soupSessionAbort, List.filterMap_append, List.filterMap_flatMap,
    List.map_eq_flatMap]
  congr 1
  refine List.flatMap_congr fun p hp => ?_
  obtain ⟨dev, hd⟩ := Option.ne_none_iff_exists'.mp (hw.tableLive p hp)
  simp only [hd, Option.map_some', Option.getD_some, filterMap_delOf_delEvents]

/-- What `device_management_stop` does. -/
structure StopLaws (s : World) : Prop where
  /-- `DEVICE_ALL_FLAGS` collects every record of the table. -/
  collectAll : s.collected deviceAllFlags = s.table.map Prod.snd
  /-- The table holds each record once. -/
  nodup : (s.table.map Prod.snd).Nodup
  /-- The stop returns; the table is empty and the session gone; `device_del` ran once on each
  record of the table, in key order, and no capability handler ran; every record that was
  listed is now halted and unlisted, or freed. -/
  stop : ∃ s', deviceManagementStop { s with out := [] } = .ok s' ∧
    s'.table = [] ∧ s'.running = false ∧ s'.inflight = [] ∧
    s'.out.filterMap Event.delOf = s.table.map Prod.snd ∧
    (∀ d, Event.capsCallback d ∉ s'.out) ∧
    ∀ d dev, s.devs d = some dev → dev.flags.listed = true →
      ∀ dev', s'.devs d = some dev' → dev'.flags.halted = true ∧ dev'.flags.listed = false

/-- **`device_management_stop`, from every reachable state.** -/
theorem stop_laws (h : Reachable s) : StopLaws s := by
  have hs := inv_of_reachable h
  have hs0 : Inv { s with out := [] } := inv_with_out.mpr hs
  refine ⟨hs.1.collected_all, hs.1.table_ids_nodup, _,
    deviceManagementStop_eq hs0, rfl, rfl, rfl, ?_, fun d hd => ?_,
    fun d dev hd hl dev' hd' => ?_⟩
  · simpa using filterMap_delOf_purged hs0.1
  · simp only [World.purged, soupSessionAbort, List.nil_append, List.mem_flatMap] at hd
    obtain ⟨p, -, hm⟩ := hd
    cases hp : s.devs p.2 <;> simp only [hp, Option.map_some', Option.map_none',
      Option.getD_some, Option.getD_none, List.not_mem_nil] at hm
    simp [delEvents] at hm
  · have hm : d ∈ s.table.map Prod.snd := hs.mem_table_ids.mpr ⟨dev, hd, hl⟩
    simp only [World.purged, soupSessionAbort, if_pos hm, hd, Option.some_bind,
      Device.afterDel] at hd'
    split at hd'
    · cases hd'
    · cases hd'
      exact ⟨rfl, rfl⟩

theorem stop_laws_mixed : StopLaws mixed := stop_laws mixed_reachable

end Stop

end AirscanDevice
