/-
# Walking the table

`device_table_collect` runs `device_table_foreach_callback` over the table in key order.
Over a table whose entries are live it returns the records whose flags meet the mask, in key
order (`World.collected`), and writes them to the front of the caller's buffer, leaving the
rest of it as it was (`deviceTableCollect_some`), as long as the buffer has room; the
`device_table_size()` slots its callers pass always do (`collected_length_le`).  With no
buffer it returns the same count (`deviceTableCollect_none`).

`device_list_get` then copies out exactly the ready records and a `NULL` after them
(`deviceListGet_eq`), and the loop of `device_list_free` stops at that `NULL`.
-/
import AirscanDevice.Spec

namespace AirscanDevice

/-! ## 1. The records a mask selects -/

/-- The record at `d` is live and its flags meet the mask. -/
def World.meets (s : World) (flags : UInt32) (d : Nat) : Bool :=
  match s.devs d with
  | some dev => flags &&& dev.flags.word != 0
  | none => false

/-- The records of the table whose flags meet the mask, in key order. -/
def World.collected (s : World) (flags : UInt32) : List Nat :=
  (s.table.map Prod.snd).filter (s.meets flags)

theorem World.meets_of_some {s : World} {flags : UInt32} {d : Nat} {dev : Device}
    (h : s.devs d = some dev) : s.meets flags d = (flags &&& dev.flags.word != 0) := by
  simp [World.meets, h]

/-- `DEVICE_READY` selects the ready records. -/
theorem DeviceFlags.ready_meets (f : DeviceFlags) :
    deviceReady &&& f.word ≠ 0 ↔ f.ready = true := by
  obtain ⟨l, r, h, i⟩ := f
  cases l <;> cases r <;> cases h <;> cases i <;> decide

/-- `DEVICE_INIT_WAIT` selects the records still waited for. -/
theorem DeviceFlags.initWait_meets (f : DeviceFlags) :
    deviceInitWait &&& f.word ≠ 0 ↔ f.initWait = true := by
  obtain ⟨l, r, h, i⟩ := f
  cases l <;> cases r <;> cases h <;> cases i <;> decide

theorem collected_length_le (s : World) (flags : UInt32) :
    (s.collected flags).length ≤ deviceTableSize s :=
  (List.length_filter_le _ _).trans (by simp [deviceTableSize])

/-! ## 2. The loop -/

section Foreach

variable {s : World} {flags : UInt32}

/-- One entry of a live record: counted, and written at the count, when it meets the mask. -/
theorem deviceTableForeachCallback_live {n : String} {d : Nat} {dev : Device}
    (h : s.devs d = some dev) (data : ForeachUserdata) :
    deviceTableForeachCallback s data (n, d) =
      if data.flags &&& dev.flags.word = 0 then .ok data
      else match data.devlist with
        | none => .ok { data with count := data.count + 1 }
        | some buf =>
          if data.count < buf.length then
            .ok { data with count := data.count + 1, devlist := some (buf.set data.count (some d)) }
          else .error .overflow := by
  simp only [deviceTableForeachCallback, World.deref_of_some h, ok_bind]
  split
  · rfl
  · cases data.devlist with
    | none => rfl
    | some buf => by_cases hb : data.count < buf.length <;> simp [hb]

/-- Counting only. -/
theorem foldlM_foreach_none :
    ∀ {l : List (String × Nat)}, (∀ p ∈ l, s.devs p.2 ≠ none) → ∀ c : Nat,
      l.foldlM (deviceTableForeachCallback s) ⟨flags, c, none⟩ =
        .ok ⟨flags, c + ((l.map Prod.snd).filter (s.meets flags)).length, none⟩
  | [], _, c => rfl
  | (n, d) :: l, hl, c => by
    obtain ⟨dev, hd⟩ := Option.ne_none_iff_exists'.mp (hl (n, d) (List.mem_cons_self _ _))
    have ih := foldlM_foreach_none (l := l) fun q hq => hl q (List.mem_cons_of_mem _ hq)
    rw [List.foldlM_cons, deviceTableForeachCallback_live hd]
    by_cases hm : flags &&& dev.flags.word = 0
    · simp [hm, ih, World.meets_of_some hd]
    · simp only [hm, if_false, ok_bind, ih, List.map_cons, List.filter_cons,
        World.meets_of_some hd, bne_iff_ne, ne_eq, not_false_eq_true, decide_True, if_true,
        List.length_cons]
      congr 2
      omega

/-- Collecting into a buffer `pre ++ post` from position `pre.length`: the records are
written over the front of `post`. -/
theorem foldlM_foreach_some :
    ∀ {l : List (String × Nat)}, (∀ p ∈ l, s.devs p.2 ≠ none) →
      ∀ (pre post : List (Option Nat)),
      ((l.map Prod.snd).filter (s.meets flags)).length ≤ post.length →
      l.foldlM (deviceTableForeachCallback s) ⟨flags, pre.length, some (pre ++ post)⟩ =
        .ok ⟨flags, pre.length + ((l.map Prod.snd).filter (s.meets flags)).length,
          some (pre ++ ((l.map Prod.snd).filter (s.meets flags)).map some ++
            post.drop ((l.map Prod.snd).filter (s.meets flags)).length)⟩
  | [], _, pre, post, _ => by simp
  | (n, d) :: l, hl, pre, post, hlen => by
    obtain ⟨dev, hd⟩ := Option.ne_none_iff_exists'.mp (hl (n, d) (List.mem_cons_self _ _))
    have ih := foldlM_foreach_some (l := l) fun q hq => hl q (List.mem_cons_of_mem _ hq)
    rw [List.foldlM_cons, deviceTableForeachCallback_live hd]
    by_cases hm : flags &&& dev.flags.word = 0
    · simpa [hm, World.meets_of_some hd] using ih pre post (by simpa [hm, World.meets_of_some hd]
        using hlen)
    · have hsel : (((n, d) :: l).map Prod.snd).filter (s.meets flags) =
          d :: (l.map Prod.snd).filter (s.meets flags) := by
        simp [World.meets_of_some hd, hm]
      rw [hsel] at hlen ⊢
      obtain ⟨x, post, rfl⟩ : ∃ x post', post = x :: post' := by
        cases post with
        | nil => simp at hlen
        | cons x post' => exact ⟨x, post', rfl⟩
      have hset : (pre ++ x :: post).set pre.length (some d) = (pre ++ [some d]) ++ post := by
        rw [List.set_append_right _ _ (le_refl _)]
        simp
      simp only [hm, if_false, List.length_append, List.length_cons, ok_bind]
      rw [if_pos (by omega), hset]
      have := ih (pre ++ [some d]) post (by simpa using hlen)
      simp only [List.length_append, List.length_singleton] at this
      rw [ok_bind, this]
      simp only [List.length_cons, List.map_cons, List.drop_succ_cons, List.append_assoc,
        List.singleton_append, List.cons_append]
      congr 2
      omega

end Foreach

/-! ## 3. `device_table_collect` -/

section Collect

variable {s : World}

/-- Every record of the table is live: the loop dereferences each. -/
def World.TableLive (s : World) : Prop := ∀ p ∈ s.table, s.devs p.2 ≠ none

theorem deviceTableCollect_none (hl : s.TableLive) (flags : UInt32) :
    deviceTableCollect s flags none = .ok ((s.collected flags).length, none) := by
  simp [deviceTableCollect, foldlM_foreach_none hl 0, World.collected]

theorem deviceTableCollect_some (hl : s.TableLive) (flags : UInt32) (buf : List (Option Nat))
    (hlen : (s.collected flags).length ≤ buf.length) :
    deviceTableCollect s flags (some buf) =
      .ok ((s.collected flags).length,
        some ((s.collected flags).map some ++ buf.drop (s.collected flags).length)) := by
  have := foldlM_foreach_some hl [] buf hlen
  simp only [List.length_nil, List.nil_append, Nat.zero_add] at this
  simp [deviceTableCollect, this, World.collected]

/-- The buffer of `device_table_size()` slots the callers pass. -/
theorem deviceTableCollect_sized (hl : s.TableLive) (flags : UInt32) :
    deviceTableCollect s flags (some (List.replicate (deviceTableSize s) none)) =
      .ok ((s.collected flags).length, some ((s.collected flags).map some ++
        List.replicate (deviceTableSize s - (s.collected flags).length) none)) := by
  rw [deviceTableCollect_some hl flags _ (by simpa using collected_length_le s flags)]
  simp

end Collect

/-! ## 4. The device list -/

/-- What `device_list_get` copies of a record. -/
def Device.saneDevice (dev : Device) : SaneDevice :=
  ⟨dev.name, dev.caps.vendor, dev.caps.model, "eSCL network scanner"⟩

/-- The entries `device_list_get` returns before its `NULL`: the ready records of the table,
in key order. -/
def World.deviceList (s : World) : List SaneDevice :=
  (s.collected deviceReady).filterMap fun d => (s.devs d).map Device.saneDevice

/-- A loop over `0 .. n - 1` whose pass `i` does what `G` does on the `i`-th element of `l`. -/
theorem mapM_range_eq {β : Type} {F G : Nat → Except Fault β} {l : List Nat}
    (h : ∀ i (hi : i < l.length), F i = G l[i]) : (List.range l.length).mapM F = l.mapM G := by
  suffices h : ∀ n ≤ l.length, (List.range n).mapM F = (l.take n).mapM G by
    simpa using h l.length le_rfl
  intro n hn
  induction n with
  | zero => rfl
  | succ n ih =>
    rw [List.range_succ, List.mapM_append, ih (by omega), List.take_succ,
      List.getElem?_eq_getElem (by omega), Option.toList_some, List.mapM_append,
      List.mapM_cons, List.mapM_cons, h n (by omega)]
    simp only [List.mapM_nil]

theorem mapM_eq_ok {α β : Type} {f : α → Except Fault β} {g : α → β} :
    ∀ {l : List α}, (∀ x ∈ l, f x = .ok (g x)) → l.mapM f = .ok (l.map g)
  | [], _ => rfl
  | x :: l, h => by
    rw [List.mapM_cons, h x (List.mem_cons_self _ _),
      mapM_eq_ok fun y hy => h y (List.mem_cons_of_mem _ hy)]
    rfl

/-- **`device_list_get`.**  The ready records of the table, in key order, and a `NULL`. -/
theorem deviceListGet_eq {s : World} (hl : s.TableLive) :
    deviceListGet s = .ok (s.deviceList.map some ++ [none]) := by
  have hlive : ∀ d ∈ s.collected deviceReady, s.devs d ≠ none := fun d hd => by
    simp only [World.collected, List.mem_filter, List.mem_map] at hd
    obtain ⟨⟨p, hp, rfl⟩, -⟩ := hd
    exact hl p hp
  have hsome : (s.collected deviceReady).map (fun d => (s.devs d).map Device.saneDevice) =
      s.deviceList.map some := by
    rw [World.deviceList, List.map_filterMap_some_eq_filter_map_isSome, eq_comm,
      List.filter_eq_self]
    intro o ho
    obtain ⟨d, hd, rfl⟩ := List.mem_map.mp ho
    obtain ⟨dev, hdev⟩ := Option.ne_none_iff_exists'.mp (hlive d hd)
    simp [hdev]
  simp only [deviceListGet, deviceTableCollect_sized hl, ok_bind, Option.getD_some]
  rw [mapM_range_eq (G := fun d => .ok ((s.devs d).map Device.saneDevice)) fun i hi => ?_,
    mapM_eq_ok fun _ _ => rfl, hsome]
  · rfl
  · obtain ⟨dev, hdev⟩ := Option.ne_none_iff_exists'.mp (hlive _ (List.getElem_mem hi))
    have hget : ((s.collected deviceReady).map some ++ List.replicate
        (deviceTableSize s - (s.collected deviceReady).length) none).getD i none =
          some (s.collected deviceReady)[i] := by
      simp [List.getD_eq_getElem?_getD, List.getElem?_append_left (by simpa using hi :
        i < ((s.collected deviceReady).map some).length), List.getElem?_eq_getElem hi]
    simp only [deviceListGetInfo, hget]
    simp [World.deref, hdev, Device.saneDevice]

/-- The loop of `device_list_free` visits the entries before the `NULL`. -/
theorem deviceListFree_eq : ∀ infos : List SaneDevice,
    deviceListFree (infos.map some ++ [none]) = some infos
  | [] => rfl
  | info :: infos => by simp [deviceListFree, deviceListFree_eq infos]

/-- `device_table_ready`: no record of the table waits. -/
theorem deviceTableReady_eq {s : World} (hl : s.TableLive) :
    deviceTableReady s = .ok ((s.collected deviceInitWait).length == 0) := by
  simp only [deviceTableReady, deviceTableCollect_none hl]
  rfl

end AirscanDevice
