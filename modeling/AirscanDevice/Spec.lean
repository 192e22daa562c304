/-
# What each function does

One lemma per function of `Device.lean`: under the conditions its callers establish, the
world it returns, written out.  The invariant proofs cite these and never unfold the
functions themselves.

The module also defines the request history of a device, `World.fetchIds`: the messages
queued for it, oldest first.  `World.msgs` keeps every message ever queued, so the history
is a function of the state, and the results about probing are statements about it.

`device_ref` and `device_unref` are given for a count strictly between `0` and `G_MAXINT`,
where the `gint` arithmetic does not wrap; the invariant keeps every live count there.
-/
import AirscanDevice.System

namespace AirscanDevice

open Function (update)

attribute [simp] World.emit World.setDev

/-! ## 1. The request history -/

/-- The messages among the first `n` that were queued for `d`. -/
def fetchIdsOf (msgs : Nat → Option Msg) (n : Nat) (d : Nat) : List Nat :=
  (List.range n).filter fun m => (msgs m).any (·.dev == d)

/-- The capability requests queued for `d`, oldest first. -/
def World.fetchIds (s : World) (d : Nat) : List Nat := fetchIdsOf s.msgs s.nextMsg d

theorem mem_fetchIdsOf {msgs : Nat → Option Msg} {n : Nat} {d : Nat} {m : Nat} :
    m ∈ fetchIdsOf msgs n d ↔ m < n ∧ ∃ msg, msgs m = some msg ∧ msg.dev = d := by
  simp only [fetchIdsOf, List.mem_filter, List.mem_range, and_congr_right_iff]
  intro _
  cases msgs m <;> simp

theorem fetchIdsOf_nodup (msgs : Nat → Option Msg) (n : Nat) (d : Nat) :
    (fetchIdsOf msgs n d).Nodup :=
  (List.nodup_range n).filter _

/-- Queuing message `n` appends it to the history of its device only. -/
theorem fetchIdsOf_push (msgs : Nat → Option Msg) (n : Nat) (msg : Msg) (d : Nat) :
    fetchIdsOf (update msgs n (some msg)) (n + 1) d =
      fetchIdsOf msgs n d ++ (if msg.dev = d then [n] else []) := by
  simp only [fetchIdsOf, List.range_succ, List.filter_append]
  congr 1
  · refine List.filter_congr fun m hm => ?_
    rw [Function.update_noteq (List.mem_range.mp hm).ne]
  · by_cases h : msg.dev = d <;> simp [h]

/-- Recording a reply keeps every history. -/
theorem fetchIdsOf_update_same_dev {msgs : Nat → Option Msg} {m : Nat} {msg msg' : Msg}
    (h : msgs m = some msg) (hd : msg'.dev = msg.dev) (n : Nat) (d : Nat) :
    fetchIdsOf (update msgs m (some msg')) n d = fetchIdsOf msgs n d := by
  refine List.filter_congr fun k _ => ?_
  by_cases hk : k = m
  · subst hk; simp [h, hd]
  · rw [Function.update_noteq hk]

/-! ## 2. Results -/

/-- The faults the environment causes: ZeroConf reporting a device with no address, a URL
libsoup rejects, a capability record with no source. -/
def Fault.Benign : Fault → Prop
  | .nullAddrinfo => True
  | .assertion .probeBaseUrl => True
  | .assertion .httpGetUrl => True
  | .assertion .initialSource => True
  | _ => False

/-- `r` is a value satisfying `P`, or a benign fault. -/
def Returns {α : Type} (P : α → Prop) : Except Fault α → Prop
  | .ok a => P a
  | .error f => f.Benign

section Returns

variable {α β : Type} {P Q : α → Prop}

@[simp] theorem returns_ok {a : α} : Returns P (.ok a) ↔ P a := Iff.rfl

@[simp] theorem returns_error {f : Fault} : Returns P (.error f) ↔ f.Benign := Iff.rfl

theorem returns_bind {x : Except Fault β} {f : β → Except Fault α} :
    Returns P (x >>= f) ↔ Returns (fun b => Returns P (f b)) x := by
  cases x <;> rfl

theorem Returns.mono {x : Except Fault α} (h : Returns P x) (hPQ : ∀ a, P a → Q a) :
    Returns Q x := by
  cases x with
  | error f => exact h
  | ok a => exact hPQ a h

theorem Returns.of_ok {x : Except Fault α} {a : α} (h : Returns P x) (hx : x = .ok a) : P a := by
  subst hx; exact h

theorem Returns.benign {x : Except Fault α} {f : Fault} (h : Returns P x)
    (hx : x = .error f) : f.Benign := by
  subst hx; exact h

theorem Returns.and {x : Except Fault α} (hP : Returns P x) (hQ : Returns Q x) :
    Returns (fun a => P a ∧ Q a) x := by
  cases x with
  | error f => exact hP
  | ok a => exact ⟨hP, hQ⟩

/-- A loop of calls each of which keeps `P`. -/
theorem returns_foldlM {γ : Type} {f : α → γ → Except Fault α}
    (hf : ∀ a c, P a → Returns P (f a c)) : ∀ (l : List γ) {a : α}, P a → Returns P (l.foldlM f a)
  | [], _, h => h
  | c :: l, a, h => by
    rw [List.foldlM_cons, returns_bind]
    exact (hf a c h).mono fun _ hb => returns_foldlM hf l hb

end Returns

/-! ## 3. The table and the references -/

variable {s : World} {d : Nat} {dev : Device}

theorem deviceFind_eq_none_iff {name : String} :
    deviceFind name s = none ↔ ∀ d, (name, d) ∉ s.table :=
  gTreeLookup_eq_none_iff

theorem deviceFind_eq_some_iff {name : String} (hs : GTreeSorted s.table) :
    deviceFind name s = some d ↔ (name, d) ∈ s.table :=
  gTreeLookup_eq_some_iff hs

@[simp] theorem gintWrap_zero : gintWrap 0 = 0 := by decide

/-- A count that fits a `gint` is its own wrap. -/
theorem gintWrap_eq_self {x : Int} (h0 : -gintMax ≤ x) (h1 : x ≤ gintMax) : gintWrap x = x := by
  unfold gintWrap
  unfold gintMax at h0 h1
  omega

/-- Wrapping an intermediate count changes nothing: the arithmetic is modulo `2 ^ 32`. -/
theorem gintWrap_add_wrap (x y : Int) : gintWrap (gintWrap x + y) = gintWrap (x + y) := by
  unfold gintWrap
  omega

theorem gintWrap_succ {x : Int} (h0 : 0 ≤ x) (h1 : x < gintMax) : gintWrap (x + 1) = x + 1 := by
  unfold gintWrap
  unfold gintMax at h1
  omega

theorem gintWrap_pred {x : Int} (h0 : 0 < x) (h1 : x < gintMax) : gintWrap (x - 1) = x - 1 := by
  unfold gintWrap
  unfold gintMax at h1
  omega

/-- `device_ref` on a count below `G_MAXINT`: one reference more. -/
theorem deviceRef_eq (h : s.devs d = some dev) (hf : 0 < dev.refcnt ∧ dev.refcnt < gintMax) :
    deviceRef d s = .ok (s.setDev d { dev with refcnt := dev.refcnt + 1 }) := by
  simp [deviceRef, h, gintWrap_succ (Int.le_of_lt hf.1) hf.2]

/-- `device_unref` on a positive count below `G_MAXINT`: a reference dropped, or the record
freed, which needs it unlisted and halted. -/
theorem returns_deviceUnref {P : World → Prop} (h : s.devs d = some dev)
    (hf : 0 < dev.refcnt ∧ dev.refcnt < gintMax)
    (hfree : dev.refcnt - 1 = 0 → dev.flags.listed = false ∧ dev.flags.halted = true ∧
      P { s with devs := update s.devs d none, out := s.out ++ [.destroy d] })
    (hdec : dev.refcnt - 1 ≠ 0 → P (s.setDev d { dev with refcnt := dev.refcnt - 1 })) :
    Returns P (deviceUnref d s) := by
  have hw := gintWrap_pred hf.1 hf.2
  by_cases hr : dev.refcnt - 1 = 0
  · obtain ⟨hl, hh, hp⟩ := hfree hr
    simpa [deviceUnref, h, hw, hr, hl, hh] using hp
  · simpa [deviceUnref, h, hw, hr] using hdec hr

/-! ## 4. `device_del` -/

/-- The loop of `device_del` over `http_pending`. -/
def cancelLoop (ms : List Nat) (s : World) : World :=
  ms.foldl (fun s m => soupSessionCancelMessage m s) s

/-- The loop touches the session and `out` only. -/
theorem cancelLoop_frame (ms : List Nat) (s : World) :
    cancelLoop ms s = { s with inflight := (cancelLoop ms s).inflight,
                               finishing := (cancelLoop ms s).finishing,
                               out := (cancelLoop ms s).out } := by
  induction ms generalizing s with
  | nil => rfl
  | cons m ms ih =>
    simp only [cancelLoop, List.foldl_cons] at ih ⊢
    rw [ih]
    unfold soupSessionCancelMessage
    split <;> rfl

theorem soupSessionCancelMessage_inflight (m : Nat) (s : World) :
    (soupSessionCancelMessage m s).inflight = s.inflight.erase m := by
  unfold soupSessionCancelMessage
  split
  · rfl
  · simp [List.erase_of_not_mem ‹_›]

theorem cancelLoop_inflight (ms : List Nat) (s : World) :
    (cancelLoop ms s).inflight = ms.foldl List.erase s.inflight := by
  induction ms generalizing s with
  | nil => rfl
  | cons m ms ih =>
    simp only [cancelLoop, List.foldl_cons] at ih ⊢
    rw [ih, soupSessionCancelMessage_inflight]

section CancelLoop

variable (ms : List Nat) (s : World)

@[simp] theorem cancelLoop_devs : (cancelLoop ms s).devs = s.devs := by
  rw [cancelLoop_frame]

@[simp] theorem cancelLoop_nextDev : (cancelLoop ms s).nextDev = s.nextDev := by
  rw [cancelLoop_frame]

@[simp] theorem cancelLoop_table : (cancelLoop ms s).table = s.table := by
  rw [cancelLoop_frame]

@[simp] theorem cancelLoop_msgs : (cancelLoop ms s).msgs = s.msgs := by
  rw [cancelLoop_frame]

@[simp] theorem cancelLoop_nextMsg : (cancelLoop ms s).nextMsg = s.nextMsg := by
  rw [cancelLoop_frame]

@[simp] theorem cancelLoop_running : (cancelLoop ms s).running = s.running := by
  rw [cancelLoop_frame]

@[simp] theorem cancelLoop_handles : (cancelLoop ms s).handles = s.handles := by
  rw [cancelLoop_frame]

end CancelLoop

/-- A message the loop leaves to finish was already finishing, or queued. -/
theorem cancelLoop_finishing (ms : List Nat) (s : World) :
    ∀ m ∈ (cancelLoop ms s).finishing, m ∈ s.finishing ∨ m ∈ s.inflight := by
  induction ms generalizing s with
  | nil => exact fun m hm => .inl hm
  | cons k ms ih =>
    intro m hm
    rcases ih (soupSessionCancelMessage k s) m hm with h | h
    · unfold soupSessionCancelMessage at h
      split at h
      · simp only [World.emit, List.mem_append, List.mem_singleton] at h
        rcases h with h | rfl
        · exact .inl h
        · exact .inr ‹_›
      · exact .inl h
    · rw [soupSessionCancelMessage_inflight] at h
      exact .inr (List.mem_of_mem_erase h)

/-- The loop emits cancellations only. -/
theorem cancelLoop_out (ms : List Nat) (s : World) :
    ∀ ev ∈ (cancelLoop ms s).out, ev ∈ s.out ∨ ∃ m q, ev = .cancelMessage m q := by
  induction ms generalizing s with
  | nil => exact fun ev h => .inl h
  | cons k ms ih =>
    intro ev hev
    rcases ih (soupSessionCancelMessage k s) ev hev with h | h
    · unfold soupSessionCancelMessage at h
      split at h <;> simp only [World.emit, List.mem_append, List.mem_singleton] at h <;>
        rcases h with h | rfl
      exacts [.inl h, .inr ⟨k, true, rfl⟩, .inl h, .inr ⟨k, false, rfl⟩]
    · exact .inr h

/-- Cancelling messages the session no longer holds only records the calls. -/
theorem cancelLoop_of_not_mem (ms : List Nat) (s : World) (h : ∀ m ∈ ms, m ∉ s.inflight) :
    cancelLoop ms s = { s with out := s.out ++ ms.map fun m => .cancelMessage m false } := by
  induction ms generalizing s with
  | nil => simp [cancelLoop]
  | cons m ms ih =>
    simp only [List.mem_cons, forall_eq_or_imp] at h
    simp only [cancelLoop, List.foldl_cons, soupSessionCancelMessage, if_neg h.1] at ih ⊢
    rw [ih (s.emit _) h.2]
    simp

/-- Cancelling messages the session holds, each once: every call finds its message queued. -/
theorem cancelLoop_of_mem (ms : List Nat) (s : World) (hn : ms.Nodup)
    (h : ∀ m ∈ ms, m ∈ s.inflight) :
    (cancelLoop ms s).out = s.out ++ ms.map fun m => .cancelMessage m true := by
  induction ms generalizing s with
  | nil => simp [cancelLoop]
  | cons m ms ih =>
    simp only [List.nodup_cons, List.mem_cons, forall_eq_or_imp] at hn h
    simp only [cancelLoop, List.foldl_cons, soupSessionCancelMessage, if_pos h.1] at ih ⊢
    rw [ih _ hn.2 fun k hk =>
      (List.mem_erase_of_ne (by rintro rfl; exact hn.1 hk)).mpr (h.2 k hk)]
    simp [World.emit]

/-- Erasing the messages of `ms` one by one from a list without duplicates. -/
theorem nodup_foldl_erase {l : List Nat} (hn : l.Nodup) (ms : List Nat) :
    (ms.foldl List.erase l).Nodup ∧ ∀ k, k ∈ ms.foldl List.erase l ↔ k ∈ l ∧ k ∉ ms := by
  induction ms generalizing l with
  | nil => simpa using hn
  | cons m ms ih =>
    obtain ⟨hn', hk⟩ := ih (hn.erase m)
    refine ⟨hn', fun k => ?_⟩
    rw [List.foldl_cons, hk, hn.mem_erase_iff]
    simp only [List.mem_cons, not_or]
    tauto

/-- The record `device_del` leaves: unlisted, halted, not ready, and the table's reference
dropped. -/
def Device.halt (dev : Device) : Device :=
  { dev with flags := { dev.flags with listed := false, halted := true, ready := false },
             refcnt := dev.refcnt - 1 }

/-- The world after `device_del` on the listed record `dev` at `d`: out of the table, its
requests cancelled, and the record halted, or freed if the table held the last reference. -/
def World.deleted (s : World) (d : Nat) (dev : Device) : World :=
  let s := cancelLoop dev.httpPending
    { s with table := gTreeRemove dev.name s.table, out := s.out ++ [.del d] }
  if dev.refcnt - 1 = 0 then { s with devs := update s.devs d none, out := s.out ++ [.destroy d] }
  else s.setDev d dev.halt

section Deleted

variable (s : World) (d : Nat) (dev : Device)

@[simp] theorem deleted_devs : (s.deleted d dev).devs =
    update s.devs d (if dev.refcnt - 1 = 0 then none else some dev.halt) := by
  unfold World.deleted; split <;> simp [*]

@[simp] theorem deleted_table : (s.deleted d dev).table = gTreeRemove dev.name s.table := by
  unfold World.deleted; split <;> simp

@[simp] theorem deleted_inflight :
    (s.deleted d dev).inflight = dev.httpPending.foldl List.erase s.inflight := by
  unfold World.deleted; split <;> simp [cancelLoop_inflight]

@[simp] theorem deleted_nextDev : (s.deleted d dev).nextDev = s.nextDev := by
  unfold World.deleted; split <;> simp

@[simp] theorem deleted_msgs : (s.deleted d dev).msgs = s.msgs := by
  unfold World.deleted; split <;> simp

@[simp] theorem deleted_nextMsg : (s.deleted d dev).nextMsg = s.nextMsg := by
  unfold World.deleted; split <;> simp

@[simp] theorem deleted_running : (s.deleted d dev).running = s.running := by
  unfold World.deleted; split <;> simp

theorem deleted_finishing :
    ∀ m ∈ (s.deleted d dev).finishing, m ∈ s.finishing ∨ m ∈ s.inflight := by
  intro m hm
  have : (s.deleted d dev).finishing = (cancelLoop dev.httpPending
      { s with table := gTreeRemove dev.name s.table, out := s.out ++ [.del d] }).finishing := by
    unfold World.deleted; split <;> rfl
  rw [this] at hm
  exact cancelLoop_finishing dev.httpPending
    { s with table := gTreeRemove dev.name s.table, out := s.out ++ [.del d] } m hm

@[simp] theorem deleted_handles : (s.deleted d dev).handles = s.handles := by
  unfold World.deleted; split <;> simp

/-- `device_del` emits the deletion, cancellations and the release of the record. -/
theorem deleted_out : ∀ ev ∈ (s.deleted d dev).out,
    ev ∈ s.out ∨ ev = .del d ∨ ev = .destroy d ∨ ∃ m q, ev = .cancelMessage m q := by
  have hc : ∀ ev ∈ (cancelLoop dev.httpPending
      { s with table := gTreeRemove dev.name s.table, out := s.out ++ [.del d] }).out,
      ev ∈ s.out ∨ ev = .del d ∨ ev = .destroy d ∨ ∃ m q, ev = .cancelMessage m q := by
    intro ev hev
    rcases cancelLoop_out _ _ ev hev with h | h
    · simp only [List.mem_append, List.mem_singleton] at h
      rcases h with h | rfl
      exacts [.inl h, .inr (.inl rfl)]
    · exact .inr (.inr (.inr h))
  intro ev hev
  unfold World.deleted at hev
  split at hev
  · simp only [List.mem_append, List.mem_singleton] at hev
    rcases hev with h | rfl
    exacts [hc ev h, .inr (.inr (.inl rfl))]
  · exact hc ev hev

/-- `device_del` of a record whose messages the session holds, each once, cancels only queued
messages. -/
theorem deleted_cancels (hn : dev.httpPending.Nodup) (h : ∀ m ∈ dev.httpPending, m ∈ s.inflight)
    {m : Nat} {q : Bool} (hm : Event.cancelMessage m q ∈ (s.deleted d dev).out) :
    Event.cancelMessage m q ∈ s.out ∨ (q = true ∧ m ∈ dev.httpPending) := by
  have hc := cancelLoop_of_mem dev.httpPending
    { s with table := gTreeRemove dev.name s.table, out := s.out ++ [.del d] } hn h
  unfold World.deleted at hm
  split at hm <;> simp [World.setDev, hc] at hm <;> rcases hm with hm | ⟨k, hk, rfl, rfl⟩
  exacts [.inl hm, .inr ⟨rfl, hk⟩, .inl hm, .inr ⟨rfl, hk⟩]

end Deleted

/-- `device_del` on a listed record returns: both assertions of `device_unref` hold on the
record it has just halted. -/
theorem deviceDel_eq_ok (h : s.devs d = some dev) (hl : dev.flags.listed = true)
    (hf : 0 < dev.refcnt ∧ dev.refcnt < gintMax) :
    deviceDel d s = .ok (s.deleted d dev) := by
  have hw : deviceDel d s = deviceUnref d ((cancelLoop dev.httpPending
      { s with table := gTreeRemove dev.name s.table, out := s.out ++ [.del d] }).setDev d
      { dev with flags := { dev.flags with listed := false, halted := true,
                                           ready := false } }) := by
    simp [deviceDel, h, hl, cancelLoop]
  rw [hw]
  by_cases hr : dev.refcnt - 1 = 0 <;>
    simp [deviceUnref, World.deref, World.deleted, Device.halt, hr, gintWrap_pred hf.1 hf.2]

/-! ## 5. Requests and probing -/

/-- The world after `device_http_get` queued the capabilities request `url` for `d`, whose
record is `dev` beforehand. -/
def World.queued (s : World) (d : Nat) (dev : Device) (url : SoupUri) : World :=
  { s with devs := update s.devs d
             (some { dev with httpPending := dev.httpPending ++ [s.nextMsg] }),
           msgs := update s.msgs s.nextMsg (some ⟨d, .scannerCapabilities, url, none⟩),
           nextMsg := s.nextMsg + 1,
           inflight := s.inflight ++ [s.nextMsg],
           out := s.out ++ [.httpGet d s.nextMsg] }

/-- Queuing overwrites the record, so an earlier write to it is lost. -/
theorem queued_setDev (s : World) (d : Nat) (x y : Device) (url : SoupUri) :
    (s.setDev d x).queued d y url = s.queued d y url := by
  simp [World.queued]

theorem returns_deviceHttpGet {P : World → Prop} (h : s.devs d = some dev)
    (hP : ∀ url, soupUriNewWithBase dev.baseUrl "ScannerCapabilities" = some url →
      P (s.queued d dev url)) :
    Returns P (deviceHttpGet d "ScannerCapabilities" .scannerCapabilities s) := by
  cases hu : soupUriNewWithBase dev.baseUrl "ScannerCapabilities" with
  | none => simp [deviceHttpGet, h, hu, Fault.Benign]
  | some url => simpa [deviceHttpGet, h, hu, World.queued] using hP url hu

/-- `device_probe_address` at position `i`: the base URL of that address, and the request. -/
theorem returns_deviceProbeAddress {P : World → Prop} {i : Nat} (h : s.devs d = some dev)
    (hP : ∀ a b url, dev.addresses[i]? = some a → soupUriNew (deviceProbeUrl a) = some b →
      soupUriNewWithBase (some b) "ScannerCapabilities" = some url →
      P (s.queued d { dev with addrCurrent := some i, baseUrl := some b } url)) :
    Returns P (deviceProbeAddress d i s) := by
  cases ha : dev.addresses[i]? with
  | none => simp [deviceProbeAddress, h, ha, Fault.Benign]
  | some a =>
    cases hb : soupUriNew (deviceProbeUrl a) with
    | none => simp [deviceProbeAddress, h, ha, hb, gAssert, Fault.Benign]
    | some b =>
      simp only [deviceProbeAddress, World.deref, h, ok_bind, ha, hb, Option.isSome_some,
        gAssert_true]
      exact returns_deviceHttpGet
        (by simp : World.devs _ d = some { dev with addrCurrent := some i, baseUrl := some b })
        (fun url hu => by rw [queued_setDev]; exact hP a b url ha hb hu)

/-- The record `device_found` creates, before it is probed. -/
def Device.found (name : String) (initScan : Bool) (addresses : List ZeroconfAddrinfo) :
    Device :=
  { Device.new name with flags := ⟨true, false, false, initScan⟩, bornInitWait := initScan,
                         addresses := addresses }

/-- The record `device_add_static` creates, before its request. -/
def Device.static (name : String) (uri : SoupUri) : Device :=
  { Device.new name with flags := ⟨true, false, false, true⟩, bornInitWait := true,
                         baseUrl := some (withTrailingSlash uri) }

/-- The world with a new record `dev` under `name` at `s.nextDev`. -/
def World.added (s : World) (name : String) (dev : Device) : World :=
  { s with devs := update s.devs s.nextDev (some dev), nextDev := s.nextDev + 1,
           table := gTreeInsert name s.nextDev s.table }

theorem deviceFound_of_listed {name : String} {b : Bool} {as : List ZeroconfAddrinfo}
    (h : deviceFind name s = some d) : deviceFound name b as s = .ok s := by
  simp [deviceFound, h]

theorem returns_deviceFound {P : World → Prop} {name : String} {b : Bool}
    {as : List ZeroconfAddrinfo} (h : deviceFind name s = none)
    (hP : ∀ a base url, as[0]? = some a → soupUriNew (deviceProbeUrl a) = some base →
      soupUriNewWithBase (some base) "ScannerCapabilities" = some url →
      P ((s.added name (Device.found name b as)).queued s.nextDev
        { Device.found name b as with addrCurrent := some 0, baseUrl := some base } url)) :
    Returns P (deviceFound name b as s) := by
  simp only [deviceFound, h, deviceAdd]
  refine returns_deviceProbeAddress (?_ : World.devs _ _ = some (Device.found name b as)) ?_
  · simp [Device.found, Device.new]
  · intro a base url ha hb hu
    have := hP a base url ha hb hu
    simpa [World.added, World.queued, Device.found, Device.new] using this

theorem deviceAddStatic_of_listed {name : String} {uri : SoupUri}
    (h : deviceFind name s = some d) : deviceAddStatic name uri s = .ok s := by
  simp [deviceAddStatic, h]

theorem returns_deviceAddStatic {P : World → Prop} {name : String} {uri : SoupUri}
    (h : deviceFind name s = none)
    (hP : ∀ url, soupUriNewWithBase (some (withTrailingSlash uri)) "ScannerCapabilities" =
      some url → P ((s.added name (Device.static name uri)).queued s.nextDev
        (Device.static name uri) url)) :
    Returns P (deviceAddStatic name uri s) := by
  simp only [deviceAddStatic, h, deviceAdd]
  refine returns_deviceHttpGet (?_ : World.devs _ _ = some (Device.static name uri)) ?_
  · simp [Device.static, Device.new]
  · intro url hu
    simpa [World.added, World.queued, Device.static, Device.new] using hP url hu

/-! ## 6. The capability callback -/

/-- The initial source is one the capabilities have. -/
theorem initialSource_isSome {caps : Devcaps} {src : OptSource}
    (h : initialSource caps = some src) : (caps.src src).isSome := by
  unfold initialSource at h
  simpa using List.find?_some h

/-- Setting a source the capabilities have succeeds, and records the source. -/
theorem deviceSetSource_isSome {caps : Devcaps} {src : OptSource}
    (h : (caps.src src).isSome) :
    ∃ opt, deviceSetSource caps src = some opt ∧ opt.src = some src := by
  obtain ⟨x, hx⟩ := Option.isSome_iff_exists.mp h
  exact ⟨⟨some src, devcapsSourceChooseColormode x,
    devcapsSourceChooseResolution x deviceDefaultResolution, 0, 0, x.brXRange.max,
    x.brYRange.max⟩, by simp [deviceSetSource, hx], rfl⟩

theorem deviceSetSource_src {caps : Devcaps} {src : OptSource} {opt : DeviceOpts}
    (h : deviceSetSource caps src = some opt) : opt.src = some src := by
  unfold deviceSetSource at h
  cases hc : caps.src src <;> simp [hc] at h
  rw [← h]

/-- The record the callback writes on success. -/
def Device.ready (dev : Device) (caps : Devcaps) (opt : DeviceOpts) : Device :=
  { dev with caps := caps, opt := opt,
             flags := { dev.flags with ready := true, initWait := false } }

/-- `device_scanner_capabilities_callback`: after a failure the next address is probed, or
the device deleted after the last one; after a success the device is ready.  `P` is asked
of the world after the final broadcast. -/
theorem returns_deviceScannerCapabilitiesCallback {P : World → Prop} {r : Reply}
    (h : s.devs d = some dev)
    (hnext : ∀ e i, capsResult r = .error e → dev.addrCurrent = some i →
      i + 1 < dev.addresses.length → Returns (fun w => P (w.emit .broadcast))
        (deviceProbeAddress d (i + 1) (s.emit (.capsCallback d))))
    (hlast : ∀ e, capsResult r = .error e →
      (∀ i, dev.addrCurrent = some i → dev.addresses.length ≤ i + 1) →
      Returns (fun w => P (w.emit .broadcast)) (deviceDel d (s.emit (.capsCallback d))))
    (hready : ∀ caps src opt, capsResult r = .ok caps → initialSource caps = some src →
      deviceSetSource caps src = some opt →
      P (((s.emit (.capsCallback d)).setDev d (dev.ready caps opt)).emit .broadcast)) :
    Returns P (deviceScannerCapabilitiesCallback d r s) := by
  simp only [deviceScannerCapabilitiesCallback, World.deref, h, ok_bind]
  cases hc : capsResult r with
  | error e =>
    cases hi : dev.addrCurrent with
    | none => exact returns_bind.mpr (hlast e hc (by simp [hi]))
    | some i =>
      by_cases hn : i + 1 < dev.addresses.length
      · simp only [hn, if_true]
        exact returns_bind.mpr (hnext e i hc hi hn)
      · simp only [hn, if_false]
        exact returns_bind.mpr (hlast e hc (by simp [hi]; omega))
  | ok caps =>
    dsimp only
    cases hs : initialSource caps with
    | none => exact trivial
    | some src =>
      obtain ⟨opt, ho, -⟩ := deviceSetSource_isSome (initialSource_isSome hs)
      simp only [ho]
      exact hready caps src opt hc hs ho

/-! ## 7. The steps -/

/-- The world a completion hands to the capability callback: the message finished with its
reply, and out of `http_pending`. -/
def World.replied (s : World) (m : Nat) (msg : Msg) (r : Reply) (dev : Device) : World :=
  { s with inflight := s.inflight.erase m,
           msgs := update s.msgs m (some { msg with reply := some r }),
           devs := update s.devs msg.dev
             (some { dev with httpPending := dev.httpPending.erase m }) }

theorem replied_devs_self (m : Nat) (msg : Msg) (r : Reply) (dev : Device) :
    (s.replied m msg r dev).devs msg.dev =
      some { dev with httpPending := dev.httpPending.erase m } := by
  simp [World.replied]

theorem exec_httpComplete {m : Nat} {msg : Msg} {r : Reply} (hm : s.msgs m = some msg)
    (hd : s.devs msg.dev = some dev) (hr : r.status ≠ soupStatusCancelled) :
    exec (.httpComplete m r) s =
      deviceScannerCapabilitiesCallback msg.dev r (s.replied m msg r dev) := by
  cases hc : msg.callback
  simp [exec, hm, deviceHttpCallback, hr, World.deref, hd, hc, World.replied]

theorem exec_httpCancelled {m : Nat} {msg : Msg} (hm : s.msgs m = some msg) :
    exec (.httpCancelled m) s = .ok { s with finishing := s.finishing.erase m } := by
  simp [exec, hm, deviceHttpCallback]

/-- `device_open` of a ready record takes a reference, wrapping the count as the `gint`
does. -/
theorem exec_deviceOpen_ready {name : String} (hf : deviceFind name s = some d)
    (hd : s.devs d = some dev) (hr : dev.flags.ready = true) :
    exec (.deviceOpen name) s =
      .ok { s.setDev d { dev with refcnt := gintWrap (dev.refcnt + 1) } with
            handles := d :: s.handles } := by
  simp [exec, deviceOpen, hf, World.deref, hd, hr, deviceRef]

/-- Opening a ready listed device takes a reference and hands out a handle; anything else
changes nothing. -/
theorem exec_deviceOpen {name : String} (hs : GTreeSorted s.table)
    (hentry : ∀ d, (name, d) ∈ s.table → s.devs d ≠ none)
    (hfit : ∀ d dev, s.devs d = some dev → 0 < dev.refcnt ∧ dev.refcnt < gintMax) :
    exec (.deviceOpen name) s = .ok s ∨ ∃ d dev, (name, d) ∈ s.table ∧ s.devs d = some dev ∧
      dev.flags.ready = true ∧ exec (.deviceOpen name) s =
        .ok { s.setDev d { dev with refcnt := dev.refcnt + 1 } with
              handles := d :: s.handles } := by
  cases hf : deviceFind name s with
  | none => exact .inl (by simp [exec, deviceOpen, hf])
  | some d =>
    have hd := (deviceFind_eq_some_iff hs).mp hf
    obtain ⟨dev, hdev⟩ := Option.ne_none_iff_exists'.mp (hentry d hd)
    cases hr : dev.flags.ready
    · exact .inl (by simp [exec, deviceOpen, hf, World.deref, hdev, hr])
    · exact .inr ⟨d, dev, hd, hdev, hr, by
        rw [exec_deviceOpen_ready hf hdev hr,
          gintWrap_succ (Int.le_of_lt (hfit d dev hdev).1) (hfit d dev hdev).2]⟩

end AirscanDevice
