/-
# Device management: records, the table and the HTTP session

The state `airscan-device.c` works on, and every function of it, as state passing.

* The heap of `struct device` records is `World.devs`; a `device *` is a `Nat`, allocated
  fresh by `device_add` and never reused, so a dangling pointer is one whose record is
  `none`.  Dereferencing it is `Fault.useAfterFree`.  A `SoupMessage *` is a `Nat` too.
* `device_table` is `World.table` (`Tree.lean`).
* `device_http_session` is `World.inflight`, the messages queued and not yet finished, and
  `World.finishing`, the cancelled ones whose callback has still to run with
  `SOUP_STATUS_CANCELLED`: the plain `SoupSession` of `soup_session_new()` finishes a cancelled
  message from the main loop, after `soup_session_cancel_message` or `soup_session_abort` has
  returned.  `World.msgs` holds every message ever queued with its `device_http_userdata` and,
  once it completed, its response.
* `refcnt` is a `volatile gint`: `g_atomic_int_inc` and `g_atomic_int_dec_and_test` wrap it in
  32-bit two's complement (`gintWrap`).
* The SANE front end holds the handles `device_open` returned (`World.handles`); ZeroConf owns
  the `zeroconf_init_scan()` flag (`World.initScan`).
* What a step did that the state does not show -- which handler ran, which requests were
  issued and cancelled, which records were deleted and freed, whether `device_table_cond` was
  broadcast -- is recorded in `World.out`, which each step starts empty.

A failed `g_assert` aborts the process, and so does a `NULL` or dangling dereference: the
functions return `Except Fault World`.
-/
import AirscanDevice.Tree
import AirscanDevice.Url
import AirscanDevice.Options
import Mathlib.Logic.Function.Basic

namespace AirscanDevice

/-! ## 1. Records and messages -/

/-- `DEVICE_LISTED`. -/
def deviceListed : UInt32 := (1 : UInt32) <<< 0
/-- `DEVICE_READY`. -/
def deviceReady : UInt32 := (1 : UInt32) <<< 2
/-- `DEVICE_HALTED`. -/
def deviceHalted : UInt32 := (1 : UInt32) <<< 3
/-- `DEVICE_INIT_WAIT`. -/
def deviceInitWait : UInt32 := (1 : UInt32) <<< 4
/-- `DEVICE_ALL_FLAGS`. -/
def deviceAllFlags : UInt32 := 0xffffffff

/-- The bits of `unsigned int flags` the code sets, one `Bool` each. -/
structure DeviceFlags where
  listed : Bool
  ready : Bool
  halted : Bool
  initWait : Bool
  deriving DecidableEq, Repr

/-- The `unsigned int` value of the flags. -/
def DeviceFlags.word (f : DeviceFlags) : UInt32 :=
  (if f.listed then deviceListed else 0) ||| (if f.ready then deviceReady else 0) |||
    (if f.halted then deviceHalted else 0) ||| (if f.initWait then deviceInitWait else 0)

/-- `struct device`, without the option descriptors `device_rebuild_opt_desc` fills. -/
structure Device where
  /-- `volatile gint refcnt`. -/
  refcnt : Int
  name : String
  flags : DeviceFlags
  caps : Devcaps
  /-- The copied address list; `NULL`, here `[]`, for a static device. -/
  addresses : List ZeroconfAddrinfo
  /-- `addr_current`, as a position in `addresses`. -/
  addrCurrent : Option Nat
  baseUrl : Option SoupUri
  httpPending : List Nat
  opt : DeviceOpts
  /-- Ghost, not a field of the C struct: the record was created with `DEVICE_INIT_WAIT`
  (by `device_add_static`, or by `device_found` during the initial scan). -/
  bornInitWait : Bool

/-- The completion callbacks `device_http_get` is given. -/
inductive Callback
  | scannerCapabilities
  deriving DecidableEq, Repr

/-- `SOUP_STATUS_CANCELLED`. -/
def soupStatusCancelled : Nat := 1

/-- `SOUP_STATUS_IS_SUCCESSFUL`. -/
def soupStatusIsSuccessful (status : Nat) : Bool := 200 ≤ status && status < 300

/-- How an exchange finished: the status, and what the body parses to -- `none` when
`xmlParseMemory` fails, else the error or the record of `devcaps_parse`. -/
structure Reply where
  status : Nat
  body : Option (Except String Devcaps)

/-- A queued `SoupMessage` with its `device_http_userdata`, and the response it completed
with. -/
structure Msg where
  dev : Nat
  callback : Callback
  uri : SoupUri
  reply : Option Reply

/-- What a step did, in order. -/
inductive Event
  /-- `device_http_get` queued the message for the device. -/
  | httpGet (d : Nat) (m : Nat)
  /-- `device_scanner_capabilities_callback` ran on the device. -/
  | capsCallback (d : Nat)
  /-- `device_del` ran on the device. -/
  | del (d : Nat)
  /-- `soup_session_cancel_message`; `queued` says whether the session still held it. -/
  | cancelMessage (m : Nat) (queued : Bool)
  /-- `device_unref` freed the record. -/
  | destroy (d : Nat)
  /-- `g_cond_broadcast(&device_table_cond)`. -/
  | broadcast
  deriving DecidableEq, Repr

/-- The `g_assert`s of the file. -/
inductive Assertion
  /-- `device_del`: `(dev->flags & DEVICE_LISTED) != 0`. -/
  | delListed
  /-- `device_unref`: `(dev->flags & DEVICE_LISTED) == 0`. -/
  | unrefUnlisted
  /-- `device_unref`: `(dev->flags & DEVICE_HALTED) != 0`. -/
  | unrefHalted
  /-- `device_probe_address`: `dev->base_url != NULL`. -/
  | probeBaseUrl
  /-- `device_http_get`: `url`. -/
  | httpGetUrl
  /-- `device_scanner_capabilities_callback`: `opt_src != NUM_OPT_SOURCE`. -/
  | initialSource
  deriving DecidableEq, Repr

/-- How the process dies. -/
inductive Fault
  | assertion (a : Assertion)
  /-- A freed record was dereferenced. -/
  | useAfterFree (d : Nat)
  /-- `device_probe_address` got no address: `device_found` was given an empty list. -/
  | nullAddrinfo
  /-- Another `NULL` pointer was dereferenced. -/
  | nullDeref
  /-- A write past the end of a buffer. -/
  | overflow
  deriving DecidableEq, Repr

/-! ## 2. The world -/

/-- Everything the functions of the file read or write. -/
structure World where
  /-- The records; `none` once freed (or not yet allocated). -/
  devs : Nat → Option Device
  /-- The next record `g_new0` returns. -/
  nextDev : Nat
  /-- `device_table`, in key order. -/
  table : List (String × Nat)
  /-- Every message ever queued. -/
  msgs : Nat → Option Msg
  nextMsg : Nat
  /-- The messages `device_http_session` has queued and not finished. -/
  inflight : List Nat
  /-- Cancelled messages whose callback has yet to run. -/
  finishing : List Nat
  /-- `device_http_session != NULL`: between `device_management_start` and `_stop`. -/
  running : Bool
  /-- The handles the front end holds, one entry per `device_open`. -/
  handles : List Nat
  /-- `zeroconf_init_scan()`. -/
  initScan : Bool
  /-- What the current step did. -/
  out : List Event

/-- After `device_management_init`: an empty table, no session.  ZeroConf's initial scan
may or may not be under way. -/
def World.init (scan : Bool) : World :=
  ⟨fun _ => none, 0, [], fun _ => none, 0, [], [], false, [], scan, []⟩

namespace World

/-- Record an event. -/
def emit (s : World) (e : Event) : World := { s with out := s.out ++ [e] }

/-- `*dev`. -/
def deref (s : World) (d : Nat) : Except Fault Device :=
  match s.devs d with
  | some dev => .ok dev
  | none => .error (.useAfterFree d)

/-- Write a record back. -/
def setDev (s : World) (d : Nat) (dev : Device) : World :=
  { s with devs := Function.update s.devs d (some dev) }

end World

/-- `g_assert`. -/
def gAssert (c : Bool) (a : Assertion) : Except Fault Unit :=
  if c then pure () else throw (.assertion a)

section Except

variable {ε α β : Type}

@[simp] theorem pure_eq_ok (a : α) : (pure a : Except ε α) = .ok a := rfl

@[simp] theorem throw_eq_error (e : ε) : (throw e : Except ε α) = .error e := rfl

@[simp] theorem ok_bind (a : α) (f : α → Except ε β) : (Except.ok a >>= f) = f a := rfl

@[simp] theorem error_bind (e : ε) (f : α → Except ε β) : (Except.error e >>= f) = .error e :=
  rfl

theorem bind_eq_ok {x : Except ε α} {f : α → Except ε β} {b : β} :
    (x >>= f) = .ok b ↔ ∃ a, x = .ok a ∧ f a = .ok b := by
  cases x <;> simp

end Except

@[simp] theorem gAssert_true (a : Assertion) : gAssert true a = .ok () := rfl

@[simp] theorem World.deref_of_some {s : World} {d : Nat} {dev : Device}
    (h : s.devs d = some dev) : s.deref d = .ok dev := by
  simp [World.deref, h]

/-! ## 3. The table -/

/-- `device_find`. -/
def deviceFind (name : String) (s : World) : Option Nat := gTreeLookup name s.table

/-- The record `device_add` creates: one reference, `DEVICE_LISTED`, no capabilities, no
pending request. -/
def Device.new (name : String) : Device :=
  { refcnt := 1, name, flags := ⟨true, false, false, false⟩, caps := devcapsInit,
    addresses := [], addrCurrent := none, baseUrl := none, httpPending := [],
    opt := DeviceOpts.init, bornInitWait := false }

/-- `device_add`: a new record, inserted into the table. -/
def deviceAdd (name : String) (s : World) : Nat × World :=
  let d := s.nextDev
  (d, { s with devs := Function.update s.devs d (some (Device.new name)), nextDev := d + 1,
               table := gTreeInsert name d s.table })

/-- `G_MAXINT`, `2 ^ 31 - 1`. -/
def gintMax : Int := 2147483647

/-- The value a `gint` holds after arithmetic: 32-bit two's complement, modulo `2 ^ 32` into
`[-2 ^ 31, 2 ^ 31)`. -/
def gintWrap (x : Int) : Int := (x + 2147483648) % 4294967296 - 2147483648

/-- `device_ref`: `g_atomic_int_inc(&dev->refcnt)`. -/
def deviceRef (d : Nat) (s : World) : Except Fault World := do
  let dev ← s.deref d
  pure (s.setDev d { dev with refcnt := gintWrap (dev.refcnt + 1) })

/-- `device_unref`: `g_atomic_int_dec_and_test(&dev->refcnt)` drops a reference and tests the
count it leaves for zero; the last reference frees the record, which must be halted and
unlisted by then. -/
def deviceUnref (d : Nat) (s : World) : Except Fault World := do
  let dev ← s.deref d
  let refcnt := gintWrap (dev.refcnt - 1)
  if refcnt = 0 then
    gAssert (!dev.flags.listed) .unrefUnlisted
    gAssert dev.flags.halted .unrefHalted
    pure ({ s with devs := Function.update s.devs d none }.emit (.destroy d))
  else pure (s.setDev d { dev with refcnt := refcnt })

/-- `soup_session_cancel_message(device_http_session, m, SOUP_STATUS_CANCELLED)`: a
message the session still holds is finished with `SOUP_STATUS_CANCELLED`, its callback to run
from the main loop; for any other the session finds nothing to do. -/
def soupSessionCancelMessage (m : Nat) (s : World) : World :=
  if m ∈ s.inflight then
    { s with inflight := s.inflight.erase m, finishing := s.finishing ++ [m] }.emit
      (.cancelMessage m true)
  else s.emit (.cancelMessage m false)

/-- `device_del`: out of the table, every pending request cancelled, halted, and the
table's reference dropped.  Nothing between the flag writes reads the flags, so they are
written together. -/
def deviceDel (d : Nat) (s : World) : Except Fault World := do
  let dev ← s.deref d
  let s := s.emit (.del d)
  gAssert dev.flags.listed .delListed
  let s := { s with table := gTreeRemove dev.name s.table }
  let s := dev.httpPending.foldl (fun s m => soupSessionCancelMessage m s) s
  let s := s.setDev d { dev with flags := { dev.flags with listed := false, halted := true,
                                                           ready := false } }
  deviceUnref d s

/-! ## 4. Requests, probing and the capability callback -/

/-- `device_http_get`: a `GET` of `path` relative to `dev->base_url`, queued in the session
and remembered in `http_pending`. -/
def deviceHttpGet (d : Nat) (path : String) (cb : Callback) (s : World) :
    Except Fault World := do
  let dev ← s.deref d
  let some url := soupUriNewWithBase dev.baseUrl path | throw (.assertion .httpGetUrl)
  let m := s.nextMsg
  let s := { s with msgs := Function.update s.msgs m (some ⟨d, cb, url, none⟩),
                    nextMsg := m + 1, inflight := s.inflight ++ [m] }
  pure ((s.setDev d { dev with httpPending := dev.httpPending ++ [m] }).emit (.httpGet d m))

/-- The path of `uri` made to end in `/`, as `device_add_static` does. -/
def withTrailingSlash (uri : SoupUri) : SoupUri :=
  if uri.path.endsWith "/" then uri else { uri with path := uri.path ++ "/" }

/-- `device_add_static`: unless the name is taken, a device with `DEVICE_INIT_WAIT` and a
fixed base URL, and its capabilities requested. -/
def deviceAddStatic (name : String) (uri : SoupUri) (s : World) : Except Fault World :=
  match deviceFind name s with
  | some _ => pure s
  | none =>
    let (d, s) := deviceAdd name s
    let s := { s with devs := Function.update s.devs d ((s.devs d).map fun dev =>
      { dev with flags := { dev.flags with initWait := true }, bornInitWait := true,
                 baseUrl := some (withTrailingSlash uri) }) }
    deviceHttpGet d "ScannerCapabilities" .scannerCapabilities s

/-- `device_probe_address`: make address `i` current, build the base URL from it, and
request the capabilities there.  There is no address `i` when `device_found` got an empty
list: the C dereferences `NULL`. -/
def deviceProbeAddress (d : Nat) (i : Nat) (s : World) : Except Fault World := do
  let dev ← s.deref d
  let some addrinfo := dev.addresses[i]? | throw .nullAddrinfo
  let baseUrl := soupUriNew (deviceProbeUrl addrinfo)
  let s := s.setDev d { dev with addrCurrent := some i, baseUrl := baseUrl }
  gAssert baseUrl.isSome .probeBaseUrl
  deviceHttpGet d "ScannerCapabilities" .scannerCapabilities s

/-- `device_found`: unless the name is taken, a device for the addresses, `DEVICE_INIT_WAIT`
during the initial scan, probed at its first address. -/
def deviceFound (name : String) (initScan : Bool) (addresses : List ZeroconfAddrinfo)
    (s : World) : Except Fault World :=
  match deviceFind name s with
  | some _ => pure s
  | none =>
    let (d, s) := deviceAdd name s
    let s := { s with devs := Function.update s.devs d ((s.devs d).map fun dev =>
      { dev with flags := { dev.flags with initWait := dev.flags.initWait || initScan },
                 bornInitWait := initScan, addresses := addresses }) }
    deviceProbeAddress d 0 s

/-- `device_removed`. -/
def deviceRemoved (name : String) (s : World) : Except Fault World :=
  match deviceFind name s with
  | some d => deviceDel d s
  | none => pure s

/-- `device_init_scan_finished`. -/
def deviceInitScanFinished (s : World) : World := s.emit .broadcast

/-- What `device_scanner_capabilities_callback` makes of a reply: the error text, or the
capabilities. -/
def capsResult (r : Reply) : Except String Devcaps :=
  if !soupStatusIsSuccessful r.status then .error "failed to load ScannerCapabilities"
  else match r.body with
    | none => .error "failed to parse ScannerCapabilities response XML"
    | some res => res

/-- The `while` loop choosing the initial source: the first one, in `OPT_SOURCE` order,
the capabilities have. -/
def initialSource (caps : Devcaps) : Option OptSource :=
  OptSource.all.find? fun src => (caps.src src).isSome

/-- `device_scanner_capabilities_callback`.  On an error the next address is probed, or,
after the last one, the device is deleted; on success the initial source is set and the
device becomes ready.  Either way `device_table_cond` is broadcast. -/
def deviceScannerCapabilitiesCallback (d : Nat) (r : Reply) (s : World) :
    Except Fault World := do
  let dev ← s.deref d
  let s := s.emit (.capsCallback d)
  let s ← match capsResult r with
    | .error _ =>
      match dev.addrCurrent with
      | some i => if i + 1 < dev.addresses.length then deviceProbeAddress d (i + 1) s
                  else deviceDel d s
      | none => deviceDel d s
    | .ok caps =>
      let some src := initialSource caps | throw (.assertion .initialSource)
      let some opt := deviceSetSource caps src | throw .nullDeref
      let flags := { dev.flags with ready := true, initWait := false }
      pure (s.setDev d { dev with caps := caps, opt := opt, flags := flags })
  pure (s.emit .broadcast)

/-- `device_http_callback`: unless the message was cancelled, it leaves `http_pending` and
its callback runs.  A cancelled message's record is not touched. -/
def deviceHttpCallback (msg : Msg) (m : Nat) (r : Reply) (s : World) :
    Except Fault World :=
  if r.status ≠ soupStatusCancelled then do
    let dev ← s.deref msg.dev
    let s := s.setDev msg.dev { dev with httpPending := dev.httpPending.erase m }
    match msg.callback with
    | .scannerCapabilities => deviceScannerCapabilitiesCallback msg.dev r s
  else pure s

/-! ## 5. Walking the table -/

/-- `device_table_foreach_userdata`: the mask, the count so far, and the caller's buffer
(`NULL` when only the count is wanted). -/
structure ForeachUserdata where
  flags : UInt32
  count : Nat
  devlist : Option (List (Option Nat))

/-- `device_table_foreach_callback`: a record whose flags meet the mask is written at
`devlist[count]`, and counted. -/
def deviceTableForeachCallback (s : World) (data : ForeachUserdata) (entry : String × Nat) :
    Except Fault ForeachUserdata := do
  let dev ← s.deref entry.2
  if data.flags &&& dev.flags.word = 0 then pure data
  else
    let devlist ← match data.devlist with
      | none => pure none
      | some buf =>
        if data.count < buf.length then pure (some (buf.set data.count (some entry.2)))
        else throw .overflow
    pure { data with count := data.count + 1, devlist := devlist }

/-- `device_table_collect`: `g_tree_foreach` of the callback over the table, in key order;
the count, and the buffer as it is left. -/
def deviceTableCollect (s : World) (flags : UInt32) (out : Option (List (Option Nat))) :
    Except Fault (Nat × Option (List (Option Nat))) := do
  let data ← s.table.foldlM (deviceTableForeachCallback s) ⟨flags, 0, out⟩
  pure (data.count, data.devlist)

/-- `device_table_size`. -/
def deviceTableSize (s : World) : Nat := s.table.length

/-- `device_del` on `devices[i]` for every `i < sz`. -/
def deviceDelAll (devices : List (Option Nat)) : List Nat → World → Except Fault World
  | [], s => pure s
  | i :: is, s => do
    let some d := devices.getD i none | throw .nullDeref
    let s ← deviceDel d s
    deviceDelAll devices is s

/-- `device_table_purge`: collect every record of the table into a buffer of
`device_table_size()` slots, then delete each. -/
def deviceTablePurge (s : World) : Except Fault World := do
  let (sz, devices) ← deviceTableCollect s deviceAllFlags
    (some (List.replicate (deviceTableSize s) none))
  deviceDelAll (devices.getD []) (List.range sz) s

/-- `device_table_ready`: no record has `DEVICE_INIT_WAIT`. -/
def deviceTableReady (s : World) : Except Fault Bool := do
  let (n, _) ← deviceTableCollect s deviceInitWait none
  pure (n == 0)

/-- The condition `device_list_get` waits for: the table is ready and ZeroConf's initial
scan is over. -/
def deviceListWaitDone (s : World) : Except Fault Bool := do
  let ready ← deviceTableReady s
  pure (ready && !s.initScan)

/-- `SANE_Device`: what `device_list_get` copies of a ready record. -/
structure SaneDevice where
  name : String
  vendor : Option String
  model : Option String
  type : String
  deriving DecidableEq, Repr

/-- One pass of the copy loop of `device_list_get`: the name, vendor and model of
`devices[i]`. -/
def deviceListGetInfo (s : World) (devices : List (Option Nat)) (i : Nat) :
    Except Fault (Option SaneDevice) := do
  let some d := devices.getD i none | throw .nullDeref
  let dev ← s.deref d
  pure (some ⟨dev.name, dev.caps.vendor, dev.caps.model, "eSCL network scanner"⟩)

/-- The list `device_list_get` builds once its wait is over: the ready records, collected
into a buffer of `device_table_size()` slots, copied out, and a `NULL` after the last. -/
def deviceListGet (s : World) : Except Fault (List (Option SaneDevice)) := do
  let (count, devices) ← deviceTableCollect s deviceReady
    (some (List.replicate (deviceTableSize s) none))
  let infos ← (List.range count).mapM (deviceListGetInfo s (devices.getD []))
  pure (infos ++ [none])

/-- The entries the loop of `device_list_free` visits: up to the first `NULL`.  `none` if it
runs off the end of the array. -/
def deviceListFree : List (Option SaneDevice) → Option (List SaneDevice)
  | [] => none
  | none :: _ => some []
  | some info :: rest => (deviceListFree rest).map (info :: ·)

/-! ## 6. Handles, start and stop -/

/-- `device_open`: a reference to the named device, if it is ready. -/
def deviceOpen (name : String) (s : World) : Except Fault (Option Nat × World) :=
  match deviceFind name s with
  | none => pure (none, s)
  | some d => do
    let dev ← s.deref d
    if dev.flags.ready then
      let s ← deviceRef d s
      pure (some d, s)
    else pure (none, s)

/-- `device_close`. -/
def deviceClose (d : Nat) (s : World) : Except Fault World := deviceUnref d s

/-- A `conf.devices` entry. -/
structure ConfDevice where
  name : String
  uri : SoupUri

/-- `device_management_start`: a new session, with nothing queued, then every configured
device.  The callbacks a stopped session still owes its cancelled messages stay to run. -/
def deviceManagementStart (conf : List ConfDevice) (s : World) : Except Fault World :=
  conf.foldlM (fun s c => deviceAddStatic c.name c.uri s)
    { s with running := true, inflight := [] }

/-- `soup_session_abort` on the plain `SoupSession`: every queued message is cancelled with
`SOUP_STATUS_CANCELLED`, and its callback is left to run from the main loop. -/
def soupSessionAbort (s : World) : World :=
  { s with inflight := [], finishing := s.finishing ++ s.inflight }

/-- `device_management_stop`: abort the session, purge the table, drop the session. -/
def deviceManagementStop (s : World) : Except Fault World := do
  let s ← deviceTablePurge (soupSessionAbort s)
  pure { s with running := false }

end AirscanDevice
