/-
# Where the capability requests go

Every request of a device is made relative to its base URL: `soup_uri_new_with_base` keeps
the base path only up to its last `/`, then takes the dot segments out.  The trailing `/`
that `device_add_static` adds, and the one `device_probe_address` prints after `rs`, are what
keep `ScannerCapabilities` under the device's resource path.

* `withTrailingSlash_path`: the path of a static device ends in `/`, and nothing else of its
  URI changes;
* `capability_request_path`: in every reachable world, a capability request made at an
  address whose `rs` is plain (`PlainRs`) goes to `/rs/ScannerCapabilities`, or to
  `/ScannerCapabilities` when there is no `rs`;
* `probe_base_query_rs`: with `rs = "a?b"` the base path is `/a`, and the request goes to
  `/ScannerCapabilities`, outside the resource path: `device_probe_address` prints `rs`
  into the URL without escaping it.
-/
import AirscanDevice.ProbeUrl
import AirscanDevice.Reachable

namespace AirscanDevice

/-! ## 1. A static device -/

/-- `device_add_static` makes the path end in `/` and changes nothing else: the path stays
when it ends in `/` already, and gets a `/` otherwise. -/
theorem withTrailingSlash_path (uri : SoupUri) :
    (withTrailingSlash uri).path.endsWith "/" = true ∧
      (withTrailingSlash uri).path =
        (if uri.path.endsWith "/" then uri.path else uri.path ++ "/") ∧
      withTrailingSlash uri = { uri with path := (withTrailingSlash uri).path } := by
  unfold withTrailingSlash
  split
  · exact ⟨‹_›, rfl, rfl⟩
  · exact ⟨endsWith_append_slash _, rfl, rfl⟩

/-! ## 2. A discovered device -/

/-- The `k`-th capability request of a discovered device is relative to the base URL of its
`k`-th address. -/
theorem msgUri_of_address {s : World} {d k m : Nat} {a : ZeroconfAddrinfo} (h : Reachable s)
    (hm : (s.fetchIds d)[k]? = some m)
    (ha : ((s.devs d).bind fun dev => dev.addresses[k]?) = some a) :
    (s.msgs m).map Msg.uri =
      soupUriNewWithBase (soupUriNew (deviceProbeUrl a)) "ScannerCapabilities" := by
  obtain ⟨dev, hd, hak⟩ := Option.bind_eq_some.mp ha
  have hD := (inv_of_reachable h).2 d dev hd
  have hk : k < dev.probeIndex + 1 := by
    have hlen := congrArg List.length hD.fetchUris
    simp only [List.length_map, List.length_range] at hlen
    exact hlen ▸ (List.getElem?_eq_some_iff.mp hm).1
  have hne : dev.addresses.isEmpty = false := by
    cases hx : dev.addresses with
    | nil => simp [hx] at hak
    | cons _ _ => rfl
  simpa [hm, hk, Device.fetchUri, Device.probeBase, hne, hak] using
    congrArg (·[k]?) hD.fetchUris

/-- The path the design gives a base URL ends in `/`. -/
theorem resourcePath_getLast (r : Option String) : (resourcePath r).data.getLast? = some '/' := by
  cases r
  · rfl
  · exact List.getLast?_concat ..

/-- `ScannerCapabilities` under a plain resource path: no dot segment to take out. -/
theorem removeDotSegments_capabilities {r : Option String} (h : ∀ rs ∈ r, PlainRs rs) :
    removeDotSegments ((resourcePath r).data ++ "ScannerCapabilities".data) =
      (resourcePath r).data ++ "ScannerCapabilities".data := by
  cases r with
  | none => decide
  | some rs =>
    have hp := h rs rfl
    have hS : ∀ c ∈ "ScannerCapabilities".data, c ≠ '/' ∧ c ≠ '.' := by decide
    have hlast : (rs.data ++ ['/'] ++ "ScannerCapabilities".data).getLast? = some 's' := by
      rw [List.getLast?_append]
      rfl
    show removeDotSegments ('/' :: (rs.data ++ ['/'] ++ _)) = '/' :: (rs.data ++ ['/'] ++ _)
    exact removeDotSegments_of_plain
      (fun h' => hp.2.1 (infix_of_append_right (by decide) hS (by decide) h'))
      (fun h' => hp.2.2 (infix_of_append_right (by decide) hS (by decide) h'))
      (not_suffix_of_getLast rfl (by rw [List.getLast?_cons, hlast]) (by decide))
      (not_suffix_of_getLast rfl (by rw [List.getLast?_cons, hlast]) (by decide))

/-- **A capability request goes under the resource path**: in every reachable world, the
`k`-th capability request of a device, made at its `k`-th address, goes to `/rs/` followed by
`ScannerCapabilities`, or to `/ScannerCapabilities` when the address has no `rs`, provided
`rs` is plain. -/
theorem capability_request_path {s : World} {d k m : Nat} {a : ZeroconfAddrinfo}
    (h : Reachable s) (hm : (s.fetchIds d)[k]? = some m)
    (ha : ((s.devs d).bind fun dev => dev.addresses[k]?) = some a)
    (hplain : ∀ rs ∈ a.rs, PlainRs rs) :
    ((s.msgs m).map fun msg => msg.uri.path) =
      some (resourcePath a.rs ++ "ScannerCapabilities") := by
  rw [show (fun msg : Msg => msg.uri.path) = SoupUri.path ∘ Msg.uri from rfl, ← Option.map_map,
    msgUri_of_address h hm ha, soupUriNew_deviceProbeUrl_eq_plain a hplain,
    soupUriNewWithBase_scannerCapabilities (by simp) (by simp) (by dsimp only; split <;> omega)]
  simp only [Option.map_some', Option.some.injEq]
  rw [mergePath_of_getLast (resourcePath_getLast a.rs), removeDotSegments_capabilities hplain]
  rfl

theorem capability_request_path_eSCL :
    ((World.after false [.managementStart [], .found "A" false [addrA (some "eSCL")]]).msgs
        0).map (fun msg => msg.uri.path) =
      some (resourcePath (some "eSCL") ++ "ScannerCapabilities") :=
  capability_request_path (d := 0) (k := 0) (m := 0) (by exact reachable_after rfl) (by decide)
    (by rfl)
    fun _ h => by cases h; decide

/-! ## 3. A resource path with a query -/

/-- Started, then given a device whose only address has `rs = "a?b"`: the device's base path
is `/a`, and its capability request, the only one, goes to `/ScannerCapabilities`. -/
theorem probe_base_query_rs :
    ∃ s, (World.init false).run [.managementStart [], .found "A" false [addrA (some "a?b")]] =
        some s ∧
      s.fetchIds 0 = [0] ∧ ((s.devs 0).bind Device.baseUrl).map SoupUri.path = some "/a" ∧
      (s.msgs 0).map (fun msg => msg.uri.path) = some "/ScannerCapabilities" := by
  have hs : (World.init false).run [.managementStart [], .found "A" false [addrA (some "a?b")]] =
      some (World.after false [.managementStart [], .found "A" false [addrA (some "a?b")]]) :=
    rfl
  have hr := (Reachable.init false).run _ hs
  refine ⟨_, hs, by decide, by decide, ?_⟩
  have hu := msgUri_of_address hr (d := 0) (k := 0) (m := 0) (a := addrA (some "a?b"))
    (by decide) (by rfl)
  have hp : soupUriNew (deviceProbeUrl (addrA (some "a?b"))) =
      some ⟨some "http", none, none, some "192.0.2.5", 80, "/a", some "b/", none⟩ := by
    decide
  rw [hp, soupUriNewWithBase_scannerCapabilities (by decide) (by decide) (by decide)] at hu
  rw [show (fun msg : Msg => msg.uri.path) = SoupUri.path ∘ Msg.uri from rfl, ← Option.map_map,
    hu]
  decide

end AirscanDevice
