/-
# The invariant of reachable states

`Inv` is what every reachable state satisfies (`inv_of_reachable`, in `Reachable.lean`).
It has a global part, `WorldOk`, and a part per live record, `DevOk`:

* `WorldOk`: ids are allocated fresh; `device_table` is a search tree whose entries are live,
  listed records under their own names; the session holds each message once, and only
  messages of listed records that they hold in `http_pending`; handles point to live
  records, and there are at most `handleLimit` of them; and a stopped system has no table
  and nothing queued (the callbacks of the messages its abort cancelled may still be due).
* `DevOk`: the flag laws, the cursor and the base URL (`Device.Ok`, which reads the record
  only); the reference count is the table's reference plus the open handles, and never
  zero, so with the bound on handles it stays below `G_MAXINT` (`DevOk.fits`); a listed
  record is in the table; and the probing state -- the record's requests
  went to positions `0, 1, ..`, one each, up to the current one, every one but the last
  failed, and the last is queued and pending while the record is listed and not ready,
  succeeded once it is ready, and, if it failed, the record was deleted at its last position.

`DevOk` reads the world only through the handles, the table entry and the record's own
messages, so a step that touches one record keeps it for every other (`DevOk.frame`).
-/
import AirscanDevice.Spec

namespace AirscanDevice

open Function (update)

/-! ## 1. Probing positions -/

/-- The base URL the fetch at position `j` goes to: the `j`-th address's, or the fixed one of
a static device. -/
def Device.probeBase (dev : Device) (j : Nat) : Option SoupUri :=
  if dev.addresses.isEmpty then dev.baseUrl
  else dev.addresses[j]?.bind fun a => soupUriNew (deviceProbeUrl a)

/-- The capability request of position `j`. -/
def Device.fetchUri (dev : Device) (j : Nat) : Option SoupUri :=
  soupUriNewWithBase (dev.probeBase j) "ScannerCapabilities"

/-- The current position: `addr_current`, or `0` for a static device. -/
def Device.probeIndex (dev : Device) : Nat := dev.addrCurrent.getD 0

/-- The last position. -/
def Device.lastIndex (dev : Device) : Nat := dev.addresses.length - 1

/-- The reply took the success path of `device_scanner_capabilities_callback`. -/
def Reply.ok (r : Reply) : Bool :=
  match capsResult r with
  | .ok _ => true
  | .error _ => false

/-- The reply of message `m`, once it has one. -/
def World.replyOf (s : World) (m : Nat) : Option Reply := (s.msgs m).bind Msg.reply

theorem Reply.ok_eq_false {r : Reply} {e : String} (h : capsResult r = .error e) :
    r.ok = false := by
  simp [Reply.ok, h]

theorem Reply.ok_eq_true {r : Reply} {caps : Devcaps} (h : capsResult r = .ok caps) :
    r.ok = true := by
  simp [Reply.ok, h]

/-- A history has one last element. -/
theorem snoc_inj {ids ids' : List Nat} {m m' : Nat} (h : ids ++ [m] = ids' ++ [m']) :
    ids = ids' ∧ m = m' := by
  obtain ⟨h1, h2⟩ := List.append_inj' h rfl
  exact ⟨h1, List.singleton_inj.mp h2⟩

/-! ## 2. The invariant -/

/-- The global part. -/
structure WorldOk (s : World) : Prop where
  devFresh : ∀ d, s.nextDev ≤ d → s.devs d = none
  msgFresh : ∀ m, s.nextMsg ≤ m → s.msgs m = none
  msgDev : ∀ m msg, s.msgs m = some msg → msg.dev < s.nextDev
  sorted : GTreeSorted s.table
  entry : ∀ n d, (n, d) ∈ s.table →
    ∃ dev, s.devs d = some dev ∧ dev.name = n ∧ dev.flags.listed = true
  inflightNodup : s.inflight.Nodup
  inflight : ∀ m ∈ s.inflight, ∃ msg dev, s.msgs m = some msg ∧ s.devs msg.dev = some dev ∧
    dev.flags.listed = true ∧ m ∈ dev.httpPending
  finishing : ∀ m ∈ s.finishing, s.msgs m ≠ none
  handles : ∀ d ∈ s.handles, s.devs d ≠ none
  stopped : s.running = false → s.table = [] ∧ s.inflight = []
  handlesLe : s.handles.length ≤ handleLimit

/-- What a record says of itself: the flag laws, the cursor and the base URL. -/
structure Device.Ok (dev : Device) : Prop where
  listed_iff : dev.flags.listed = !dev.flags.halted
  halted_ready : dev.flags.halted = true → dev.flags.ready = false
  ready_initWait : dev.flags.ready = true → dev.flags.initWait = false
  ready_src : dev.flags.ready = true → ∃ src, dev.opt.src = some src ∧ (dev.caps.src src).isSome
  initWait : dev.flags.listed = true → dev.flags.initWait = (dev.bornInitWait && !dev.flags.ready)
  cursor : (dev.addresses = [] ∧ dev.addrCurrent = none) ∨
    ∃ i, dev.addrCurrent = some i ∧ i < dev.addresses.length
  base : dev.baseUrl = dev.probeBase dev.probeIndex

/-- The part for the live record `dev` at `d`. -/
structure DevOk (s : World) (d : Nat) (dev : Device) : Prop where
  ok : dev.Ok
  refcnt : dev.refcnt = (if dev.flags.listed then 1 else 0) + s.handles.count d
  alive : 0 < dev.refcnt
  inTable : dev.flags.listed = true → (dev.name, d) ∈ s.table
  fetchUris : (s.fetchIds d).map (fun m => (s.msgs m).map Msg.uri) =
    (List.range (dev.probeIndex + 1)).map dev.fetchUri
  failed : ∀ ids m, s.fetchIds d = ids ++ [m] → ∀ k ∈ ids, ∃ r, s.replyOf k = some r ∧ r.ok = false
  probing : dev.flags.listed = true → dev.flags.ready = false → ∃ ids m,
    s.fetchIds d = ids ++ [m] ∧ dev.httpPending = [m] ∧ m ∈ s.inflight ∧ s.replyOf m = none
  ready : dev.flags.ready = true → dev.httpPending = [] ∧ ∃ ids m r,
    s.fetchIds d = ids ++ [m] ∧ s.replyOf m = some r ∧ r.ok = true
  lastFailed : ∀ ids m r, s.fetchIds d = ids ++ [m] → s.replyOf m = some r → r.ok = false →
    dev.flags.listed = false ∧ dev.probeIndex = dev.lastIndex
  handled : dev.flags.listed = true → dev.flags.ready = false → s.handles.count d = 0

/-- The invariant of reachable states. -/
def Inv (s : World) : Prop := WorldOk s ∧ ∀ d dev, s.devs d = some dev → DevOk s d dev

theorem inv_init (scan : Bool) : Inv (World.init scan) :=
  ⟨⟨fun _ _ => rfl, fun _ _ => rfl, fun _ _ h => (nomatch h), List.Pairwise.nil,
    fun _ _ h => (nomatch h), List.nodup_nil, fun _ h => (nomatch h), fun _ h => (nomatch h),
    fun _ h => (nomatch h), fun _ => ⟨rfl, rfl⟩, Nat.zero_le _⟩, fun _ _ h => (nomatch h)⟩

/-! ## 3. Consequences -/

section Consequences

variable {s : World} {d : Nat} {dev : Device}

theorem Device.Ok.with_pending (h : dev.Ok) (p : List Nat) : { dev with httpPending := p }.Ok :=
  ⟨h.1, h.2, h.3, h.4, h.5, h.6, h.7⟩

theorem Device.Ok.halted_eq (h : dev.Ok) : dev.flags.halted = !dev.flags.listed := by
  rw [h.listed_iff, Bool.not_not]

/-- The messages a listed record holds are its own, and queued. -/
theorem DevOk.pending_mem (h : DevOk s d dev) (hl : dev.flags.listed = true) :
    ∀ m ∈ dev.httpPending, m ∈ s.fetchIds d ∧ m ∈ s.inflight := by
  cases hr : dev.flags.ready
  · obtain ⟨ids, m, hids, hp, hin, -⟩ := h.probing hl hr
    simp [hp, hids, hin]
  · simp [(h.ready hr).1]

/-- A listed record's last request has not failed. -/
theorem DevOk.last_not_failed (h : DevOk s d dev) (hl : dev.flags.listed = true)
    {ids : List Nat} {m : Nat} {r : Reply} (hids : s.fetchIds d = ids ++ [m])
    (hr : s.replyOf m = some r) : r.ok = true := by
  cases hrd : dev.flags.ready
  · obtain ⟨ids', m', hids', -, -, hnone⟩ := h.probing hl hrd
    rw [(snoc_inj (hids.symm.trans hids')).2, hnone] at hr
    cases hr
  · obtain ⟨-, ids', m', r', hids', hr', hok⟩ := h.ready hrd
    rw [(snoc_inj (hids.symm.trans hids')).2, hr'] at hr
    cases hr
    exact hok

/-- A listed record with a request pending is probing, and that request is its only one. -/
theorem DevOk.probing_of_pending {m : Nat} (h : DevOk s d dev) (hl : dev.flags.listed = true)
    (hm : m ∈ dev.httpPending) :
    dev.flags.halted = false ∧ dev.flags.ready = false ∧ dev.httpPending = [m] := by
  have hr : dev.flags.ready = false := by
    cases hr : dev.flags.ready
    · rfl
    · simp [(h.ready hr).1] at hm
  obtain ⟨-, m', -, hp, -⟩ := h.probing hl hr
  rw [hp, List.mem_singleton] at hm
  exact ⟨by simpa [h.ok.listed_iff] using hl, hr, hm ▸ hp⟩

/-- A live count is the table's reference and one per handle, so it stays below `G_MAXINT`:
`device_ref` and `device_unref` on it do not wrap. -/
theorem DevOk.fits (h : DevOk s d dev) (hw : WorldOk s) :
    0 < dev.refcnt ∧ dev.refcnt < gintMax := by
  have hc := List.count_le_length d s.handles
  have hl := hw.handlesLe
  refine ⟨h.alive, ?_⟩
  rw [h.refcnt]
  unfold gintMax
  unfold handleLimit at hl
  split <;> omega

theorem Inv.fits (hs : Inv s) (hd : s.devs d = some dev) : 0 < dev.refcnt ∧ dev.refcnt < gintMax :=
  (hs.2 d dev hd).fits hs.1

/-- A record whose last reference a handle holds is not listed. -/
theorem DevOk.unlisted_of_last (h : DevOk s d dev) (hd : d ∈ s.handles)
    (hr : dev.refcnt - 1 = 0) : dev.flags.listed = false := by
  have hrc := h.refcnt
  have hc := List.count_pos_iff.mpr hd
  cases hl : dev.flags.listed
  · rfl
  · simp only [hl, if_true] at hrc
    omega

end Consequences

/-! ## 4. Framing -/

/-- `s'` keeps what `DevOk` reads for the record `dev` at `e`. -/
structure Frame (s s' : World) (e : Nat) (dev : Device) : Prop where
  handles : s'.handles.count e = s.handles.count e
  fetchIds : s'.fetchIds e = s.fetchIds e
  msgs : ∀ m ∈ s.fetchIds e, s'.msgs m = s.msgs m
  table : dev.flags.listed = true → (dev.name, e) ∈ s.table → (dev.name, e) ∈ s'.table
  inflight : dev.flags.listed = true → ∀ m ∈ s.fetchIds e, m ∈ s.inflight → m ∈ s'.inflight

/-- An unlisted record needs neither its table entry nor its messages queued. -/
theorem Frame.of_unlisted {s s' : World} {e : Nat} {dev : Device}
    (hl : dev.flags.listed = false) (hh : s'.handles.count e = s.handles.count e)
    (hf : s'.fetchIds e = s.fetchIds e) (hm : ∀ m ∈ s.fetchIds e, s'.msgs m = s.msgs m) :
    Frame s s' e dev :=
  ⟨hh, hf, hm, fun h => absurd h (by simp [hl]), fun h => absurd h (by simp [hl])⟩

theorem DevOk.frame {s s' : World} {e : Nat} {dev : Device} (h : DevOk s e dev)
    (hf : Frame s s' e dev) : DevOk s' e dev := by
  have hreply : ∀ ids m, s.fetchIds e = ids ++ [m] → ∀ k ∈ ids ++ [m],
      s'.replyOf k = s.replyOf k := fun ids m hids k hk => by
    simp only [World.replyOf, hf.msgs k (hids ▸ hk)]
  refine ⟨h.ok, ?_, h.alive, fun hl => hf.table hl (h.inTable hl), ?_, ?_, ?_, ?_, ?_,
    fun hl hr => hf.handles.trans (h.handled hl hr)⟩
  · rw [h.refcnt, hf.handles]
  · rw [hf.fetchIds, ← h.fetchUris]
    exact List.map_congr_left fun m hm => by rw [hf.msgs m hm]
  · intro ids m hids k hk
    rw [hf.fetchIds] at hids
    rw [hreply ids m hids k (List.mem_append_left _ hk)]
    exact h.failed ids m hids k hk
  · intro hl hr
    obtain ⟨ids, m, hids, hp, hin, hrep⟩ := h.probing hl hr
    have hmem : m ∈ s.fetchIds e := by simp [hids]
    exact ⟨ids, m, hf.fetchIds ▸ hids, hp, hf.inflight hl m hmem hin,
      (hreply ids m hids m (by simp)).trans hrep⟩
  · intro hr
    obtain ⟨hp, ids, m, r, hids, hm, hok⟩ := h.ready hr
    exact ⟨hp, ids, m, r, hf.fetchIds ▸ hids, (hreply ids m hids m (by simp)).trans hm, hok⟩
  · intro ids m r hids hm hok
    rw [hf.fetchIds] at hids
    exact h.lastFailed ids m r hids ((hreply ids m hids m (by simp)).symm.trans hm) hok

/-- `s'` differs from `s` at most in `out` and `initScan`, which the invariant does not read. -/
structure SameCore (s s' : World) : Prop where
  devs : s'.devs = s.devs
  nextDev : s'.nextDev = s.nextDev
  table : s'.table = s.table
  msgs : s'.msgs = s.msgs
  nextMsg : s'.nextMsg = s.nextMsg
  inflight : s'.inflight = s.inflight
  finishing : s'.finishing = s.finishing
  running : s'.running = s.running
  handles : s'.handles = s.handles

theorem WorldOk.congr {s s' : World} (h : WorldOk s) (hc : SameCore s s') : WorldOk s' := by
  obtain ⟨h1, h2, h3, h4, h5, h6, h7, h8, h9, h10, h11⟩ := h
  obtain ⟨c1, c2, c3, c4, c5, c6, c7, c8, c9⟩ := hc
  constructor <;> simp only [c1, c2, c3, c4, c5, c6, c7, c8, c9] <;> assumption

theorem Inv.congr {s s' : World} (h : Inv s) (hc : SameCore s s') : Inv s' := by
  refine ⟨h.1.congr hc, fun d dev hd => (h.2 d dev (hc.devs ▸ hd)).frame ?_⟩
  have hf : s'.fetchIds d = s.fetchIds d := by simp only [World.fetchIds, hc.msgs, hc.nextMsg]
  exact ⟨by rw [hc.handles], hf, fun m _ => by rw [hc.msgs], fun _ => by rw [hc.table]; exact id,
    fun _ _ _ => by rw [hc.inflight]; exact id⟩

/-- The invariant reads neither `out` nor `initScan`. -/
theorem inv_with_out {s : World} {o : List Event} : Inv { s with out := o } ↔ Inv s :=
  ⟨fun h => h.congr ⟨rfl, rfl, rfl, rfl, rfl, rfl, rfl, rfl, rfl⟩,
   fun h => h.congr ⟨rfl, rfl, rfl, rfl, rfl, rfl, rfl, rfl, rfl⟩⟩

theorem inv_emit {s : World} {e : Event} : Inv (s.emit e) ↔ Inv s := inv_with_out

theorem inv_with_initScan {s : World} {b : Bool} : Inv { s with initScan := b } ↔ Inv s :=
  ⟨fun h => h.congr ⟨rfl, rfl, rfl, rfl, rfl, rfl, rfl, rfl, rfl⟩,
   fun h => h.congr ⟨rfl, rfl, rfl, rfl, rfl, rfl, rfl, rfl, rfl⟩⟩

end AirscanDevice
